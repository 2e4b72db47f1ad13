import LatentMesh.AirCore.Fec
import LatentMesh.Lib.Convolutional

/-!
# The soft decoder is maximum likelihood

The states of `softViterbiDecode` are the registers of the convolutional code with the taps `g0`
and `g1` (`code`). One column of scores is computed state by state (`next_column_read`), so the
loop over the pairs is a forward pass through the trellis (`forward_pass_forward`) and its
traceback reads the survivor back (`traceback_eq_survivor`). Scores stay below `256` per step, far
from the ends of the 32-bit range (`forward_pass_bounded`).
-/

namespace LatentMesh.AirCore

open LatentMesh.Lib

/-! ## The code over bit vectors -/

/-- The code of `g0` and `g1`. -/
def code : ConvCode 6 where
  tap0 := 0x79#7
  tap1 := 0x5b#7

/-- A register as the byte that the source keeps. -/
def stateByte (state : BitVec 6) : UInt8 := UInt8.ofNat state.toFin

/-- The first output bit is that of the code. -/
theorem output_bit_g0 : ∀ state : BitVec 6, ∀ bit : Bool,
    outputBit g0 (shiftIn (stateByte state) bit.toUInt8) = (code.output0 state bit).toUInt8 := by
  decide

/-- The second output bit is that of the code. -/
theorem output_bit_g1 : ∀ state : BitVec 6, ∀ bit : Bool,
    outputBit g1 (shiftIn (stateByte state) bit.toUInt8) = (code.output1 state bit).toUInt8 := by
  decide

/-- The next state is that of the trellis. -/
theorem next_state_byte : ∀ state : BitVec 6, ∀ bit : Bool,
    nextState (shiftIn (stateByte state) bit.toUInt8) =
      stateByte ((ConvCode.trellis 6).next state bit) := by
  decide

/-- The encoder loop produces the code word of the code. -/
theorem encode_bits_eq (state : BitVec 6) (word : List Bool) :
    encodeBits (stateByte state) (word.map Bool.toUInt8) =
      (code.encodeFrom state word).map Bool.toUInt8 := by
  induction word generalizing state with
  | nil => rfl
  | cons bit word ih =>
      simp only [List.map_cons, encodeBits, ConvCode.encodeFrom, output_bit_g0, output_bit_g1,
        next_state_byte, ih]

/-- A list of bits is a list of Booleans. -/
theorem exists_word {bits : List UInt8} (h : ∀ bit ∈ bits, bit ≤ 1) :
    ∃ word : List Bool, bits = word.map Bool.toUInt8 := by
  induction bits with
  | nil => exact ⟨[], rfl⟩
  | cons bit bits ih =>
      obtain ⟨word, rfl⟩ := ih fun b hb => h b (by simp [hb])
      have hbit : bit = 0 ∨ bit = 1 := by
        have hle := h bit (by simp)
        rw [UInt8.le_iff_toNat_le] at hle
        have hcases : bit.toNat = 0 ∨ bit.toNat = 1 := by
          have : (1 : UInt8).toNat = 1 := rfl
          omega
        rcases hcases with h0 | h1
        · exact .inl (UInt8.toNat_inj.mp h0)
        · exact .inr (UInt8.toNat_inj.mp h1)
      rcases hbit with rfl | rfl
      · exact ⟨false :: word, rfl⟩
      · exact ⟨true :: word, rfl⟩

/-- A bit as a byte is zero or one. -/
theorem toUInt8_le_one (bit : Bool) : bit.toUInt8 ≤ 1 := by cases bit <;> decide

/-- Every word of Booleans is a list of bits. -/
theorem word_le_one (word : List Bool) : ∀ bit ∈ word.map Bool.toUInt8, bit ≤ 1 := by
  simp only [List.mem_map]
  rintro bit ⟨b, -, rfl⟩
  exact toUInt8_le_one b

/-- The code word of a data word, with the zero tail. -/
def codeWord (data : List Bool) : List Bool :=
  code.encodeFrom (0#6) (data ++ List.replicate memory false)

/-- The code word has two bits for every input bit and the tail. -/
@[simp] theorem code_word_length (data : List Bool) :
    (codeWord data).length = 2 * (data.length + memory) := by
  simp [codeWord]

/-- The encoder accepts every bit string of bounded length. -/
theorem convolutional_encode_word {word : List Bool} (h : word.length ≤ frameMaxBytes * 8) :
    convolutionalEncode (word.map Bool.toUInt8) = .ok ((codeWord word).map Bool.toUInt8) := by
  have hbits : ¬ ∃ bit ∈ word.map Bool.toUInt8, 1 < bit := by
    rintro ⟨bit, hmem, hlt⟩
    exact absurd (word_le_one word bit hmem) (UInt8.not_le.mpr hlt)
  have htail : word.map Bool.toUInt8 ++ List.replicate memory 0 =
      (word ++ List.replicate memory false).map Bool.toUInt8 := by
    rw [List.map_append, List.map_replicate]
    rfl
  rw [convolutionalEncode, if_neg (not_or.mpr ⟨by simpa using h, hbits⟩), htail]
  exact congrArg Except.ok (encode_bits_eq (0#6) _)

/-! ## One column -/

/-- The even source of the two edges into a state. -/
def lowerSource (state : BitVec 6) : BitVec 6 := state >>> 1

/-- The other source of the two edges into a state. -/
def upperSource (state : BitVec 6) : BitVec 6 := state >>> 1 ||| 32#6

/-- The input of both edges into a state. -/
def inputBit (state : BitVec 6) : Bool := state.getLsbD 0

/-- The lower source leads to the state. -/
theorem next_lower_source : ∀ state : BitVec 6,
    (ConvCode.trellis 6).next (lowerSource state) (inputBit state) = state := by
  decide

/-- The upper source leads to the state. -/
theorem next_upper_source : ∀ state : BitVec 6,
    (ConvCode.trellis 6).next (upperSource state) (inputBit state) = state := by
  decide

/-- Every edge into a state comes from one of its two sources. -/
theorem source_cases : ∀ state : BitVec 6, ∀ bit : Bool,
    let next := (ConvCode.trellis 6).next state bit
    inputBit next = bit ∧ (state = lowerSource next ∨ state = upperSource next) := by
  decide

/-- The edges in the order of the loops. -/
def edges : List (Fin 64 × UInt8) :=
  (List.finRange 64).flatMap fun previous => [(previous, 0), (previous, 1)]

/-- The loops reach a state from its lower source first. -/
theorem edges_into : ∀ state : BitVec 6,
    edges.filter (fun e => stateIndex (shiftIn (UInt8.ofNat e.1) e.2) == state.toFin) =
      [((lowerSource state).toFin, (inputBit state).toUInt8),
        ((upperSource state).toFin, (inputBit state).toUInt8)] := by
  decide

/-- The score and the predecessor of one state. -/
def Column.read (column : Column) (state : Fin 64) : Int × UInt8 :=
  (column.scores[state], column.predecessors[state])

/-- What an edge does to the entry of its target. -/
def relaxEntry (pair : Int8 × Int8) (scores : Vector Int 64) (entry : Int × UInt8)
    (edge : Fin 64 × UInt8) : Int × UInt8 :=
  if scores[edge.1] = negativeInfinity then entry
  else
    let candidate := saturatingAdd scores[edge.1]
      (branchMetric pair (shiftIn (UInt8.ofNat edge.1) edge.2))
    if entry.1 < candidate ∨ (candidate = entry.1 ∧ UInt8.ofNat edge.1 < entry.2) then
      (candidate, UInt8.ofNat edge.1)
    else entry

/-- The two ways to read a table of the states. -/
theorem get_eq_get_elem {β : Type} (table : Vector β 64) (state : Fin 64) :
    table.get state = table[state] := rfl

/-- An edge changes the entry of its target only. -/
theorem relax_edge_read (pair : Int8 × Int8) (scores : Vector Int 64) (state : Fin 64)
    (column : Column) (edge : Fin 64 × UInt8) :
    (relaxEdge pair scores column edge.1 edge.2).read state =
      if stateIndex (shiftIn (UInt8.ofNat edge.1) edge.2) == state then
        relaxEntry pair scores (column.read state) edge
      else column.read state := by
  by_cases htarget : stateIndex (shiftIn (UInt8.ofNat edge.1) edge.2) = state
  · subst htarget
    rw [if_pos (beq_self_eq_true _)]
    dsimp only [relaxEdge, relaxEntry, Column.read, get_eq_get_elem]
    split
    · rfl
    · split
      · simp
      · rfl
  · have hne : ¬ (stateIndex (shiftIn (UInt8.ofNat edge.1) edge.2)).val = state.val :=
      fun h => htarget (Fin.ext h)
    rw [if_neg (by simpa using htarget)]
    dsimp only [relaxEdge, Column.read]
    split
    · rfl
    · split
      · simp [Vector.getElem_set_ne _ _ hne]
      · rfl

/-- The entry of a state depends on the two edges into it. -/
theorem next_column_read_edges (scores : Vector Int 64) (pair : Int8 × Int8) (state : BitVec 6) :
    (nextColumn scores pair).read state.toFin =
      relaxEntry pair scores
        (relaxEntry pair scores (negativeInfinity, noPredecessor)
          ((lowerSource state).toFin, (inputBit state).toUInt8))
        ((upperSource state).toFin, (inputBit state).toUInt8) := by
  have hloops : nextColumn scores pair = edges.foldl
      (fun column edge => relaxEdge pair scores column edge.1 edge.2) Column.unreached := by
    simp only [nextColumn, edges, List.foldl_flatMap, List.foldl_cons, List.foldl_nil]
  rw [hloops, foldl_read _ (Column.read · state.toFin) _ _
    (relax_edge_read pair scores state.toFin), edges_into]
  simp [Column.read, Column.unreached]

/-! ## Metric range -/

/-- The metric of one soft value is bounded. -/
theorem llr_metric_bounded (llr : Int8) (expected : UInt8) :
    -128 ≤ llrMetric llr expected ∧ llrMetric llr expected ≤ 128 := by
  have hlow := Int8.le_toInt llr
  have hhigh := Int8.toInt_lt llr
  unfold llrMetric
  split <;> omega

/-- The metric of a branch is bounded. -/
theorem branch_metric_bounded (pair : Int8 × Int8) (register : UInt8) :
    -256 ≤ branchMetric pair register ∧ branchMetric pair register ≤ 256 := by
  have h0 := llr_metric_bounded pair.1 (outputBit g0 register)
  have h1 := llr_metric_bounded pair.2 (outputBit g1 register)
  unfold branchMetric
  omega

/-- A sum inside the 32-bit range does not saturate. -/
theorem saturating_add_eq {left right : Int} (hlow : i32Min ≤ left + right)
    (hhigh : left + right ≤ i32Max) : saturatingAdd left right = left + right := by
  rw [saturatingAdd, min_eq_left hhigh, max_eq_right hlow]

/-- Every reached state has a score of at most `256` per step, in absolute value. -/
def Bounded (time : Nat) (scores : Vector Int 64) : Prop :=
  ∀ state : Fin 64, scores[state] ≠ negativeInfinity →
    -(256 * time : Int) ≤ scores[state] ∧ scores[state] ≤ 256 * time

/-- The number of steps up to which `256` per step stays clear of the mark `negativeInfinity`. -/
def maxSteps : Nat := 2 ^ 20

/-- A candidate of a reached state stays within the bound of the next step. -/
theorem Bounded.candidate {time : Nat} {scores : Vector Int 64} (h : Bounded time scores)
    (htime : time < maxSteps) {state : Fin 64} (hreached : scores[state] ≠ negativeInfinity)
    (pair : Int8 × Int8) (register : UInt8) :
    saturatingAdd scores[state] (branchMetric pair register) =
        scores[state] + branchMetric pair register ∧
      -(256 * (time + 1 : Nat) : Int) ≤ scores[state] + branchMetric pair register ∧
      scores[state] + branchMetric pair register ≤ 256 * (time + 1 : Nat) ∧
      negativeInfinity < scores[state] + branchMetric pair register := by
  have hscore := h state hreached
  have hbranch := branch_metric_bounded pair register
  simp only [maxSteps] at htime
  have hclear : negativeInfinity < scores[state] + branchMetric pair register := by
    simp only [negativeInfinity, i32Min]
    omega
  refine ⟨saturating_add_eq ?_ ?_, by omega, by omega, hclear⟩
  · simp only [i32Min]
    omega
  · simp only [i32Max]
    omega

/-! ## One column, state by state -/

/-- The score of a state, if it is reached. -/
def scoreOf (scores : Vector Int 64) (state : BitVec 6) : Option Int :=
  if scores[state.toFin] = negativeInfinity then none else some scores[state.toFin]

/-- A state has a score when it was reached. -/
theorem score_of_eq_some_iff {scores : Vector Int 64} {state : BitVec 6} {score : Int} :
    scoreOf scores state = some score ↔
      scores[state.toFin] ≠ negativeInfinity ∧ scores[state.toFin] = score := by
  simp [scoreOf]

/-- The predecessor that a column keeps for a state. -/
def pick (predecessors : Vector UInt8 64) (state : BitVec 6) : BitVec 6 :=
  BitVec.ofNat 6 predecessors[state.toFin].toNat

/-- The metric of the edge from `source` with an input. -/
def edgeMetric (pair : Int8 × Int8) (source : BitVec 6) (bit : Bool) : Int :=
  branchMetric pair (shiftIn (stateByte source) bit.toUInt8)

/-- The candidate that the edge from `source` offers to a state. -/
def candidateFrom (pair : Int8 × Int8) (scores : Vector Int 64) (state source : BitVec 6) :
    Option Int :=
  (scoreOf scores source).map (· + edgeMetric pair source (inputBit state))

/-- The better of two candidates, and the source it comes from. A tie goes to the lower source. -/
def selectSource (state : BitVec 6) : Option Int → Option Int → Int × UInt8
  | none, none => (negativeInfinity, noPredecessor)
  | some lower, none => (lower, stateByte (lowerSource state))
  | none, some upper => (upper, stateByte (upperSource state))
  | some lower, some upper =>
      if lower < upper then (upper, stateByte (upperSource state))
      else (lower, stateByte (lowerSource state))

/-- The lower source is tried before the upper one. -/
theorem lower_source_lt_upper_source : ∀ state : BitVec 6,
    stateByte (lowerSource state) ≤ stateByte (upperSource state) ∧
      stateByte (lowerSource state) < noPredecessor ∧
      stateByte (upperSource state) < noPredecessor := by
  decide

/-- A candidate beats a state that was not reached. -/
theorem negative_infinity_lt_candidate {time : Nat} {scores : Vector Int 64}
    (h : Bounded time scores) (htime : time < maxSteps) {pair : Int8 × Int8}
    {state source : BitVec 6} {candidate : Int}
    (hcandidate : candidateFrom pair scores state source = some candidate) :
    negativeInfinity < candidate := by
  obtain ⟨score, hscore, rfl⟩ := Option.map_eq_some_iff.mp hcandidate
  obtain ⟨hreached, rfl⟩ := score_of_eq_some_iff.mp hscore
  exact (h.candidate htime hreached pair _).2.2.2

/-- A candidate replaces an entry when it is better. -/
def offer (entry : Int × UInt8) (source : BitVec 6) : Option Int → Int × UInt8
  | none => entry
  | some candidate =>
      if entry.1 < candidate ∨ (candidate = entry.1 ∧ stateByte source < entry.2) then
        (candidate, stateByte source)
      else entry

/-- An edge offers its candidate to the entry of its target. -/
theorem relax_entry_eq {time : Nat} {scores : Vector Int 64} (h : Bounded time scores)
    (htime : time < maxSteps) (pair : Int8 × Int8) (state source : BitVec 6)
    (entry : Int × UInt8) :
    relaxEntry pair scores entry (source.toFin, (inputBit state).toUInt8) =
      offer entry source (candidateFrom pair scores state source) := by
  by_cases hreached : scores[source.toFin] = negativeInfinity
  · have hnone : candidateFrom pair scores state source = none := by
      rw [candidateFrom, scoreOf, if_pos hreached, Option.map_none]
    rw [hnone]
    exact if_pos hreached
  · have hsome : candidateFrom pair scores state source =
        some (scores[source.toFin] + edgeMetric pair source (inputBit state)) := by
      rw [candidateFrom, scoreOf, if_neg hreached, Option.map_some]
    obtain ⟨hadd, -⟩ := h.candidate htime hreached pair
      (shiftIn (stateByte source) (inputBit state).toUInt8)
    rw [hsome, relaxEntry, if_neg hreached]
    dsimp only [edgeMetric, offer]
    rw [← hadd]
    rfl

/-- The entry of a state in the next column. -/
theorem next_column_read {time : Nat} {scores : Vector Int 64} (h : Bounded time scores)
    (htime : time < maxSteps) (pair : Int8 × Int8) (state : BitVec 6) :
    (nextColumn scores pair).read state.toFin =
      selectSource state (candidateFrom pair scores state (lowerSource state))
        (candidateFrom pair scores state (upperSource state)) := by
  obtain ⟨hle, -, -⟩ := lower_source_lt_upper_source state
  rw [next_column_read_edges, relax_entry_eq h htime, relax_entry_eq h htime]
  cases hlower : candidateFrom pair scores state (lowerSource state) with
  | none =>
      cases hupper : candidateFrom pair scores state (upperSource state) with
      | none => rfl
      | some upper =>
          have hlt := negative_infinity_lt_candidate h htime hupper
          exact if_pos (Or.inl hlt)
  | some lower =>
      have hlt := negative_infinity_lt_candidate h htime hlower
      have hfirst : offer (negativeInfinity, noPredecessor) (lowerSource state) (some lower) =
          (lower, stateByte (lowerSource state)) := if_pos (Or.inl hlt)
      rw [hfirst]
      cases candidateFrom pair scores state (upperSource state) with
      | none => rfl
      | some upper =>
          -- a tie does not replace the lower source, which is visited first
          have htie : ¬ stateByte (upperSource state) < stateByte (lowerSource state) :=
            UInt8.not_lt.mpr hle
          simp [selectSource, offer, htie]

/-- The selected source offers the best candidate. -/
theorem select_source_cases (state : BitVec 6) (lower upper : Option Int) :
    (lower = none ∧ upper = none ∧
        selectSource state lower upper = (negativeInfinity, noPredecessor)) ∨
      ∃ source candidate, selectSource state lower upper = (candidate, stateByte source) ∧
        ((source = lowerSource state ∧ lower = some candidate) ∨
          (source = upperSource state ∧ upper = some candidate)) ∧
        (∀ other, lower = some other → other ≤ candidate) ∧
        (∀ other, upper = some other → other ≤ candidate) := by
  cases lower with
  | none =>
      cases upper with
      | none => exact Or.inl ⟨rfl, rfl, rfl⟩
      | some b => exact Or.inr ⟨upperSource state, b, rfl, by simp, by simp, by simp⟩
  | some a =>
      cases upper with
      | none => exact Or.inr ⟨lowerSource state, a, rfl, by simp, by simp, by simp⟩
      | some b =>
          by_cases hlt : a < b
          · exact Or.inr ⟨upperSource state, b, if_pos hlt, by simp, by simp; omega, by simp⟩
          · exact Or.inr ⟨lowerSource state, a, if_neg hlt, by simp, by simp, by simp; omega⟩

/-- What one column does for a state: either no source of it is reached, or it keeps the best of
the sources that are. -/
theorem next_column_cases {time : Nat} {scores : Vector Int 64} (h : Bounded time scores)
    (htime : time < maxSteps) (pair : Int8 × Int8) (state : BitVec 6) :
    ((nextColumn scores pair).read state.toFin = (negativeInfinity, noPredecessor) ∧
        ∀ source, (ConvCode.trellis 6).next source (inputBit state) = state →
          scoreOf scores source = none) ∨
      ∃ source before, (ConvCode.trellis 6).next source (inputBit state) = state ∧
        scoreOf scores source = some before ∧
        (nextColumn scores pair).read state.toFin =
          (before + edgeMetric pair source (inputBit state), stateByte source) ∧
        ∀ other before', (ConvCode.trellis 6).next other (inputBit state) = state →
          scoreOf scores other = some before' →
          before' + edgeMetric pair other (inputBit state) ≤
            before + edgeMetric pair source (inputBit state) := by
  have hsources : ∀ source, (ConvCode.trellis 6).next source (inputBit state) = state →
      source = lowerSource state ∨ source = upperSource state := by
    intro source hnext
    have hcases := (source_cases source (inputBit state)).2
    rwa [hnext] at hcases
  rw [next_column_read h htime]
  rcases select_source_cases state (candidateFrom pair scores state (lowerSource state))
    (candidateFrom pair scores state (upperSource state)) with
    ⟨hlower, hupper, hselect⟩ | ⟨source, candidate, hselect, hsource, hlower, hupper⟩
  · refine Or.inl ⟨hselect, fun source hnext => ?_⟩
    rcases hsources source hnext with rfl | rfl
    · exact Option.map_eq_none_iff.mp hlower
    · exact Option.map_eq_none_iff.mp hupper
  · have hcandidate : candidateFrom pair scores state source = some candidate := by
      rcases hsource with ⟨rfl, hsome⟩ | ⟨rfl, hsome⟩ <;> exact hsome
    obtain ⟨before, hbefore, rfl⟩ := Option.map_eq_some_iff.mp hcandidate
    refine Or.inr ⟨source, before, ?_, hbefore, hselect, fun other before' hnext hother => ?_⟩
    · rcases hsource with ⟨rfl, -⟩ | ⟨rfl, -⟩
      · exact next_lower_source state
      · exact next_upper_source state
    · have hoffer : candidateFrom pair scores state other =
          some (before' + edgeMetric pair other (inputBit state)) := by
        rw [candidateFrom, hother, Option.map_some]
      rcases hsources other hnext with rfl | rfl
      · exact hlower _ hoffer
      · exact hupper _ hoffer

/-- A column keeps the scores bounded. -/
theorem next_column_bounded {time : Nat} {scores : Vector Int 64} (h : Bounded time scores)
    (htime : time < maxSteps) (pair : Int8 × Int8) :
    Bounded (time + 1) (nextColumn scores pair).scores := by
  intro index hreached
  rcases next_column_cases h htime pair (BitVec.ofFin index) with
    ⟨hread, -⟩ | ⟨source, before, -, hbefore, hread, -⟩
  · exact absurd (congrArg Prod.fst hread) hreached
  · obtain ⟨hsource, rfl⟩ := score_of_eq_some_iff.mp hbefore
    obtain ⟨-, hlow, hhigh, -⟩ := h.candidate htime hsource pair
      (shiftIn (stateByte source) (inputBit (BitVec.ofFin index)).toUInt8)
    have hscore : (nextColumn scores pair).scores[index] = scores[source.toFin] +
        edgeMetric pair source (inputBit (BitVec.ofFin index)) := congrArg Prod.fst hread
    rw [hscore]
    exact ⟨hlow, hhigh⟩

/-- A column keeps a state reached exactly by a score above the mark. -/
theorem next_column_score {time : Nat} {scores : Vector Int 64} (h : Bounded time scores)
    (htime : time < maxSteps) {pair : Int8 × Int8} {state source : BitVec 6} {before : Int}
    (hbefore : scoreOf scores source = some before)
    (hread : (nextColumn scores pair).read state.toFin =
      (before + edgeMetric pair source (inputBit state), stateByte source)) :
    scoreOf (nextColumn scores pair).scores state =
      some (before + edgeMetric pair source (inputBit state)) := by
  obtain ⟨hsource, rfl⟩ := score_of_eq_some_iff.mp hbefore
  obtain ⟨-, -, -, hclear⟩ := h.candidate htime hsource pair
    (shiftIn (stateByte source) (inputBit state).toUInt8)
  have hscore : (nextColumn scores pair).scores[state.toFin] = scores[source.toFin] +
    edgeMetric pair source (inputBit state) := congrArg Prod.fst hread
  refine score_of_eq_some_iff.mpr ⟨?_, hscore⟩
  rw [hscore]
  exact ne_of_gt hclear

/-- A state as a byte tells the state. -/
theorem state_byte_to_nat : ∀ state : BitVec 6, BitVec.ofNat 6 (stateByte state).toNat = state := by
  decide

/-- A column is a step of a forward pass. -/
theorem next_column_relaxed {time : Nat} {scores : Vector Int 64} (h : Bounded time scores)
    (htime : time < maxSteps) {pair : Int8 × Int8} (edge : Nat → BitVec 6 → Bool → Int)
    (hedge : ∀ state bit, edge time state bit = edgeMetric pair state bit) :
    (ConvCode.trellis 6).Relaxed edge inputBit time (scoreOf scores)
      (pick (nextColumn scores pair).predecessors) (scoreOf (nextColumn scores pair).scores) where
  attained := by
    intro state score hscore
    rcases next_column_cases h htime pair state with
      ⟨hread, -⟩ | ⟨source, before, hnext, hbefore, hread, -⟩
    · obtain ⟨hreached, -⟩ := score_of_eq_some_iff.mp hscore
      exact absurd (congrArg Prod.fst hread) hreached
    · have hpick : pick (nextColumn scores pair).predecessors state = source := by
        have hbyte : (nextColumn scores pair).predecessors[state.toFin] = stateByte source :=
          congrArg Prod.snd hread
        rw [pick, hbyte, state_byte_to_nat]
      rw [hpick]
      refine ⟨before, hbefore, hnext, ?_⟩
      rw [next_column_score h htime hbefore hread] at hscore
      rw [hedge]
      exact (Option.some.inj hscore).symm
  best := by
    intro state bit before hbefore
    obtain ⟨hbit, -⟩ := source_cases state bit
    rcases next_column_cases h htime pair ((ConvCode.trellis 6).next state bit) with
      ⟨-, hnone⟩ | ⟨source, kept, -, hkept, hread, hbest⟩
    · rw [hnone state (by rw [hbit])] at hbefore
      cases hbefore
    · refine ⟨_, next_column_score h htime hkept hread, ?_⟩
      have hle := hbest state before (by rw [hbit]) hbefore
      rw [hedge]
      rwa [hbit] at hle ⊢

/-! ## The whole forward pass -/

/-- The edge metrics of a list of pairs. -/
def pairEdge (pairs : List (Int8 × Int8)) (time : Nat) (state : BitVec 6) (bit : Bool) : Int :=
  edgeMetric (pairs.getD time (0, 0)) state bit

/-- One pair more. -/
@[simp] theorem forward_pass_append (pairs : List (Int8 × Int8)) (pair : Int8 × Int8) :
    forwardPass (pairs ++ [pair]) = (forwardPass pairs).step pair := by
  simp [forwardPass]

/-- The pass keeps a row for every pair. -/
@[simp] theorem forward_pass_history_length (pairs : List (Int8 × Int8)) :
    (forwardPass pairs).history.length = pairs.length := by
  induction pairs using List.reverseRecOn with
  | nil => rfl
  | append_singleton pairs pair ih => simp [ForwardPass.step, ih]

/-- At the start only the first state is reached. -/
theorem start_scores : ∀ index : Fin 64,
    ForwardPass.start.scores[index] = if index = 0 then 0 else negativeInfinity := by
  decide

/-- The scores of the pass stay bounded. -/
theorem forward_pass_bounded (pairs : List (Int8 × Int8)) (h : pairs.length ≤ maxSteps) :
    Bounded pairs.length (forwardPass pairs).scores := by
  induction pairs using List.reverseRecOn with
  | nil =>
      intro index hreached
      have hscore := start_scores index
      by_cases hindex : index = 0
      · rw [if_pos hindex] at hscore
        exact ⟨by simp [forwardPass, hscore], by simp [forwardPass, hscore]⟩
      · rw [if_neg hindex] at hscore
        exact absurd hscore hreached
  | append_singleton pairs pair ih =>
      rw [List.length_append, List.length_singleton] at h ⊢
      rw [forward_pass_append]
      exact next_column_bounded (ih (by omega)) (by omega) pair

/-- The loop over the pairs is a forward pass through the trellis. -/
theorem forward_pass_forward (pairs : List (Int8 × Int8)) (h : pairs.length ≤ maxSteps) :
    (ConvCode.trellis 6).Forward (pairEdge pairs) inputBit ((forwardPass pairs).history.map pick)
      (scoreOf (forwardPass pairs).scores) := by
  suffices hinitial : ∀ before, before <+: pairs →
      (ConvCode.trellis 6).Forward (pairEdge pairs) inputBit
        ((forwardPass before).history.map pick) (scoreOf (forwardPass before).scores) from
    hinitial pairs List.prefix_rfl
  intro before
  induction before using List.reverseRecOn with
  | nil =>
      intro _
      refine .start _ rfl fun state hstate => ?_
      have hindex : state.toFin ≠ 0 := fun hzero => hstate (BitVec.toFin_inj.mp hzero)
      have hscore := start_scores state.toFin
      rw [if_neg hindex] at hscore
      exact if_pos hscore
  | append_singleton before pair ih =>
      intro hinitial
      obtain ⟨after, hafter⟩ := hinitial
      have hlength : before.length < maxSteps := by
        have := congrArg List.length hafter
        simp only [List.length_append, List.length_singleton] at this
        omega
      rw [forward_pass_append]
      refine .step (ih ⟨pair :: after, by simpa using hafter⟩) ?_
      rw [List.length_map, forward_pass_history_length]
      refine next_column_relaxed (forward_pass_bounded before (le_of_lt hlength)) hlength _ ?_
      intro state bit
      rw [pairEdge, ← hafter]
      simp

/-! ## Traceback -/

/-- What the traceback reads off a state. -/
theorem state_byte_facts : ∀ state : BitVec 6, stateByte state ≠ noPredecessor ∧
    Fin.ofNat 64 (stateByte state).toNat = state.toFin ∧
    stateByte state &&& 1 = (inputBit state).toUInt8 := by
  decide

/-- The traceback from a reached state reads its survivor back. -/
theorem traceback_eq_survivor (pairs : List (Int8 × Int8)) (h : pairs.length ≤ maxSteps)
    {state : BitVec 6} {score : Int}
    (hreached : scoreOf (forwardPass pairs).scores state = some score) (decoded : List UInt8) :
    traceback (forwardPass pairs).history state.toFin decoded =
      .ok (0, (Trellis.survivor inputBit ((forwardPass pairs).history.map pick) state).map
        Bool.toUInt8 ++ decoded) := by
  induction pairs using List.reverseRecOn generalizing state score decoded with
  | nil =>
      have hscore := start_scores state.toFin
      obtain ⟨hstate, -⟩ := score_of_eq_some_iff.mp hreached
      have hzero : state.toFin = 0 := by
        by_contra hne
        rw [if_neg hne] at hscore
        exact hstate hscore
      rw [hzero]
      rfl
  | append_singleton pairs pair ih =>
      rw [List.length_append, List.length_singleton] at h
      have hbounded := forward_pass_bounded pairs (by omega)
      rw [forward_pass_append] at hreached ⊢
      rcases next_column_cases hbounded (by omega) pair state with
        ⟨hread, -⟩ | ⟨source, before, -, hbefore, hread, -⟩
      · obtain ⟨hstate, -⟩ := score_of_eq_some_iff.mp hreached
        exact absurd (congrArg Prod.fst hread) hstate
      · obtain ⟨hmark, hindex, -⟩ := state_byte_facts source
        obtain ⟨-, -, hbit⟩ := state_byte_facts state
        have hbyte : (nextColumn (forwardPass pairs).scores pair).predecessors.get state.toFin =
          stateByte source := congrArg Prod.snd hread
        have hpick : pick (nextColumn (forwardPass pairs).scores pair).predecessors state =
            source :=
          (congrArg (fun byte : UInt8 => BitVec.ofNat 6 byte.toNat) hbyte).trans
            (state_byte_to_nat source)
        simp only [ForwardPass.step, traceback, hbyte, if_neg hmark, hindex, List.map_cons,
          Trellis.survivor, hpick]
        rw [ih (by omega) hbefore, List.map_append, List.map_singleton, ← hbit,
          List.append_assoc]
        rfl

/-! ## Correlation -/

/-- The correlation of LLRs with code bits. -/
def correlation (llrs : List Int8) (coded : List UInt8) : Int :=
  (llrs.zipWith llrMetric coded).sum

/-- The path metric of a word is the correlation with its code word. -/
theorem correlation_eq_metric (llrs : List Int8) (state : BitVec 6) (word : List Bool)
    (hlength : llrs.length = 2 * word.length) (time : Nat)
    (edge : Nat → BitVec 6 → Bool → Int)
    (hedge : ∀ i, edge (time + i) = pairEdge (llrPairs llrs) i) :
    correlation llrs ((code.encodeFrom state word).map Bool.toUInt8) =
      (ConvCode.trellis 6).metric edge time state word := by
  induction word generalizing llrs state time with
  | nil =>
      obtain rfl := List.eq_nil_of_length_eq_zero hlength
      rfl
  | cons bit word ih =>
      obtain ⟨first, llrs, rfl⟩ := List.exists_cons_of_length_eq_add_one (n := 2 * word.length + 1)
        (by simpa [Nat.mul_add] using hlength)
      obtain ⟨second, llrs, rfl⟩ := List.exists_cons_of_length_eq_add_one (n := 2 * word.length)
        (by simpa [Nat.mul_add] using hlength)
      have hrest : ∀ i, edge (time + 1 + i) = pairEdge (llrPairs llrs) i := by
        intro i
        rw [Nat.add_right_comm, Nat.add_assoc]
        exact hedge (i + 1)
      have hfirst : edge time state bit = edgeMetric (first, second) state bit :=
        congrFun (congrFun (hedge 0) state) bit
      have hih := ih llrs ((ConvCode.trellis 6).next state bit)
        (by simpa [Nat.mul_add] using hlength) (time + 1) hrest
      simp only [correlation] at hih
      simp only [correlation, ConvCode.encodeFrom, List.map_cons, List.zipWith_cons_cons,
        List.sum_cons, Trellis.metric, hfirst, hih, edgeMetric, branchMetric, output_bit_g0,
        output_bit_g1, Int.add_assoc]

/-! ## Maximum likelihood -/

/-- Two soft values make a pair. -/
@[simp] theorem llr_pairs_length (llrs : List Int8) : (llrPairs llrs).length = llrs.length / 2 := by
  induction llrs using llrPairs.induct with
  | case1 first second rest ih =>
      simp only [llrPairs, List.length_cons, ih]
      omega
  | case2 llrs h =>
      match llrs, h with
      | [], _ => rfl
      | [_], _ => simp [llrPairs]
      | first :: second :: rest, h => exact absurd rfl (h first second rest)

/-- A metric that a 32-bit integer holds. -/
def InI32 (metric : Int) : Prop := i32Min ≤ metric ∧ metric ≤ i32Max

/-- No addition of the forward pass over these LLRs leaves the 32-bit range: neither the sum of the
two bit metrics of an edge, nor the sum of a reached score and that edge. -/
def MetricsInRange (llrs : List Int8) : Prop :=
  ∀ before pair after, llrPairs llrs = before ++ pair :: after →
    ∀ (previous : Fin 64) (input : UInt8),
      (forwardPass before).scores[previous] ≠ negativeInfinity →
      InI32 (branchMetric pair (shiftIn (UInt8.ofNat previous) input)) ∧
        InI32 ((forwardPass before).scores[previous] +
          branchMetric pair (shiftIn (UInt8.ofNat previous) input))

/-- No metric of the decoder overflows. -/
theorem soft_viterbi_metrics_in_range (llrs : List Int8) (hmax : llrs.length ≤ maxCodedBits) :
    MetricsInRange llrs := by
  intro before pair after hpairs previous input hreached
  have hlength : before.length < maxSteps := by
    have hsplit := congrArg List.length hpairs
    simp only [llr_pairs_length, List.length_append, List.length_cons] at hsplit
    have hbound : maxCodedBits / 2 < maxSteps := by decide
    omega
  have hbranch := branch_metric_bounded pair (shiftIn (UInt8.ofNat previous) input)
  have hscore := forward_pass_bounded before (le_of_lt hlength) previous hreached
  simp only [maxSteps] at hlength
  simp only [InI32, i32Min, i32Max]
  omega

/-- Six zero inputs terminate every word. -/
theorem run_terminated (data : List Bool) :
    (ConvCode.trellis 6).run (0#6) (data ++ List.replicate memory false) = 0#6 := by
  rw [Trellis.run_append]
  exact ConvCode.run_zeros _

/-- The survivor of state zero, which the decoder reads back. -/
def survivorWord (pairs : List (Int8 × Int8)) : List Bool :=
  Trellis.survivor inputBit ((forwardPass pairs).history.map pick) (0#6)

/-- State zero is reached, and its survivor is a terminated word with the best metric. -/
theorem survivor_word_terminated (pairs : List (Int8 × Int8)) (h : memory ≤ pairs.length)
    (hmax : pairs.length ≤ maxSteps) :
    ∃ (score : Int) (data : List Bool), scoreOf (forwardPass pairs).scores (0#6) = some score ∧
      data.length = pairs.length - memory ∧
      survivorWord pairs = data ++ List.replicate memory false ∧
      (ConvCode.trellis 6).metric (pairEdge pairs) 0 (0#6)
        (data ++ List.replicate memory false) = score ∧
      ∀ other : List Bool, other.length = pairs.length - memory →
        (ConvCode.trellis 6).metric (pairEdge pairs) 0 (0#6)
          (other ++ List.replicate memory false) ≤ score := by
  have hforward := forward_pass_forward pairs hmax
  have hbest : ∀ other : List Bool, other.length = pairs.length - memory →
      ∃ score, scoreOf (forwardPass pairs).scores (0#6) = some score ∧
        (ConvCode.trellis 6).metric (pairEdge pairs) 0 (0#6)
          (other ++ List.replicate memory false) ≤ score := by
    intro other hother
    have hle := hforward.metric_le (other ++ List.replicate memory false) (by simp; omega)
    rwa [show (ConvCode.trellis 6).start = 0#6 from rfl, run_terminated] at hle
  -- the all-zero word reaches the final state
  obtain ⟨score, hscore, -⟩ := hbest (List.replicate (pairs.length - memory) false) (by simp)
  obtain ⟨hrun, hmetric⟩ := hforward.survivor_metric hscore
  change (ConvCode.trellis 6).run _ (survivorWord pairs) = _ at hrun
  change (ConvCode.trellis 6).metric _ _ _ (survivorWord pairs) = _ at hmetric
  have hlength : (survivorWord pairs).length = pairs.length := by simp [survivorWord]
  have htail : (survivorWord pairs).drop (pairs.length - memory) =
      List.replicate memory false := by
    rw [← List.take_append_drop (pairs.length - memory) (survivorWord pairs)] at hrun
    refine ConvCode.tail_eq_zeros (m := 6) ?_ hrun
    simp only [memory] at h ⊢
    rw [List.length_drop]
    omega
  have hword : survivorWord pairs =
      (survivorWord pairs).take (pairs.length - memory) ++ List.replicate memory false := by
    rw [← htail, List.take_append_drop]
  refine ⟨score, (survivorWord pairs).take (pairs.length - memory), hscore, ?_, hword, ?_, ?_⟩
  · rw [List.length_take]
    omega
  · rw [← hword]
    exact hmetric
  · intro other hother
    obtain ⟨score', hscore', hle⟩ := hbest other hother
    rw [hscore] at hscore'
    obtain rfl := Option.some.inj hscore'
    exact hle

/-- The lengths that `softViterbiDecode` accepts. -/
structure AcceptedLength (length : Nat) : Prop where
  least : memory * 2 ≤ length
  most : length ≤ maxCodedBits
  even : length % 2 = 0
  whole : (length / 2 - memory) % 8 = 0

/-- Any other length is refused. -/
theorem soft_viterbi_rejects {llrs : List Int8} (h : ¬ AcceptedLength llrs.length) :
    softViterbiDecode llrs = .error .invalidFec := by
  unfold softViterbiDecode
  split
  · rfl
  · rename_i hbounds
    refine if_pos fun hwhole => h ⟨by omega, by omega, by omega, hwhole⟩

/-- The decoder returns the data bits of the survivor, whose code word has the best correlation. -/
theorem soft_viterbi_word {llrs : List Int8} (h : AcceptedLength llrs.length) :
    ∃ data : List Bool, data.length = llrs.length / 2 - memory ∧
      survivorWord (llrPairs llrs) = data ++ List.replicate memory false ∧
      softViterbiDecode llrs = .ok
        { bits := data.map Bool.toUInt8
          pathMetric := correlation llrs ((codeWord data).map Bool.toUInt8)
          confidence := inputConfidence llrs } ∧
      ∀ other : List Bool, other.length = data.length →
        correlation llrs ((codeWord other).map Bool.toUInt8) ≤
          correlation llrs ((codeWord data).map Bool.toUInt8) := by
  obtain ⟨hmin, hmax, heven, hwhole⟩ := h
  have hpairs : (llrPairs llrs).length = llrs.length / 2 := llr_pairs_length llrs
  have hbound : maxCodedBits / 2 < maxSteps := by decide
  obtain ⟨score, data, hscore, hdata, hsurvivor, hmetric, hbest⟩ :=
    survivor_word_terminated (llrPairs llrs) (by omega) (by omega)
  have hcorrelation : ∀ word : List Bool, word.length = (llrPairs llrs).length - memory →
      correlation llrs ((codeWord word).map Bool.toUInt8) =
        (ConvCode.trellis 6).metric (pairEdge (llrPairs llrs)) 0 (0#6)
          (word ++ List.replicate memory false) := by
    intro word hword
    refine correlation_eq_metric llrs (0#6) _ ?_ 0 _ fun i => by rw [Nat.zero_add]
    simp only [List.length_append, List.length_replicate]
    omega
  have htrace := traceback_eq_survivor (llrPairs llrs) (by omega) hscore []
  change traceback _ 0 [] = .ok (0, (survivorWord (llrPairs llrs)).map Bool.toUInt8 ++ []) at htrace
  rw [hsurvivor, List.append_nil] at htrace
  obtain ⟨hmark, hscore0⟩ := score_of_eq_some_iff.mp hscore
  have hreached : (forwardPass (llrPairs llrs)).scores[0] ≠ negativeInfinity := hmark
  have hvalue : (forwardPass (llrPairs llrs)).scores[0] =
      correlation llrs ((codeWord data).map Bool.toUInt8) := by
    rw [hcorrelation data hdata, hmetric]
    exact hscore0
  rw [hpairs] at hdata
  refine ⟨data, hdata, hsurvivor, ?_, fun other hother => ?_⟩
  · have hsplit : (data ++ List.replicate memory false).map Bool.toUInt8 =
        data.map Bool.toUInt8 ++ List.replicate memory 0 := by
      rw [List.map_append, List.map_replicate]
      rfl
    have hhead : ((data ++ List.replicate memory false).map Bool.toUInt8).take
        (llrs.length / 2 - memory) = data.map Bool.toUInt8 := by
      rw [hsplit, List.take_left' (by simpa using hdata)]
    have htail : ((data ++ List.replicate memory false).map Bool.toUInt8).drop
        (llrs.length / 2 - memory) = List.replicate memory 0 := by
      rw [hsplit, List.drop_left' (by simpa using hdata)]
    rw [softViterbiDecode, if_neg (by omega)]
    dsimp only
    rw [if_neg (by omega), if_neg hreached, htrace]
    dsimp only [Except.bind]
    rw [hhead, htail, hvalue, if_neg]
    rintro (hne | ⟨bit, hmem, hbit⟩)
    · exact hne rfl
    · exact hbit (List.eq_of_mem_replicate hmem)
  · rw [hcorrelation other (by omega), ← hvalue]
    exact le_of_le_of_eq (hbest other (by omega)) hscore0.symm

/-- On every accepted length the soft decoder succeeds, and it returns a data word with the best
correlation and that correlation, without leaving the 32-bit range. -/
theorem soft_viterbi_maximum_likelihood (llrs : List Int8) (h : AcceptedLength llrs.length) :
    ∃ result, softViterbiDecode llrs = .ok result ∧
      result.bits.length = llrs.length / 2 - memory ∧ (∀ bit ∈ result.bits, bit ≤ 1) ∧
      (∃ coded, convolutionalEncode result.bits = .ok coded ∧
        result.pathMetric = correlation llrs coded) ∧
      (∀ data : List UInt8, data.length = llrs.length / 2 - memory → (∀ bit ∈ data, bit ≤ 1) →
        ∃ coded, convolutionalEncode data = .ok coded ∧
          correlation llrs coded ≤ result.pathMetric) ∧
      MetricsInRange llrs := by
  obtain ⟨data, hlength, -, hdecode, hbest⟩ := soft_viterbi_word h
  have hbound : llrs.length / 2 - memory ≤ frameMaxBytes * 8 := by
    have hmost := h.most
    simp only [maxCodedBits] at hmost
    omega
  refine ⟨_, hdecode, by simpa using hlength, word_le_one data,
    ⟨_, convolutional_encode_word (by omega), rfl⟩, ?_, soft_viterbi_metrics_in_range llrs h.most⟩
  intro other hother hle
  obtain ⟨word, rfl⟩ := exists_word hle
  rw [List.length_map] at hother
  exact ⟨_, convolutional_encode_word (by omega), hbest word (by omega)⟩

/-- A coded byte with three wrong signs and LLRs at both ends of their range. -/
def byteLlrs : List Int8 :=
  [127, -60, -90, 40, -3, 127, -64, 5, 100, -33, 12, 81, -127, -7, -55, 1, -90, 127, -20, -64, 11,
    127, 3, -99, 127, -20, -45, -128]

/-- The path has at least the correlation of the byte that was sent, and no other has more. -/
theorem soft_viterbi_maximum_likelihood_byte :
    ∃ result, softViterbiDecode byteLlrs = .ok result ∧ result.bits.length = 8 ∧
      1601 ≤ result.pathMetric ∧
      ∀ data : List UInt8, data.length = 8 → (∀ bit ∈ data, bit ≤ 1) →
        ∃ coded, convolutionalEncode data = .ok coded ∧
          correlation byteLlrs coded ≤ result.pathMetric := by
  obtain ⟨result, hdecode, hlength, -, -, hbest, -⟩ := soft_viterbi_maximum_likelihood byteLlrs
    ⟨by decide, by decide, by decide, by decide⟩
  obtain ⟨coded, hcoded, hsent⟩ := hbest [1, 0, 1, 1, 0, 0, 1, 0] rfl (by decide +kernel)
  have hcorrelation : (convolutionalEncode [1, 0, 1, 1, 0, 0, 1, 0]).map (correlation byteLlrs) =
      .ok 1601 := by
    decide +kernel
  rw [hcoded] at hcorrelation
  exact ⟨result, hdecode, hlength, le_of_eq_of_le (Except.ok.inj hcorrelation).symm hsent, hbest⟩

end LatentMesh.AirCore
