import LatentMesh.AirC.Bits
import LatentMesh.Lib.Bitmap

/-!
# The C and Rust codes agree

Both encoders produce the code word of the same register (`lm_air_fec_encode_eq`). On hard bits the
two decoders run the same forward pass: the Rust score of a state is an affine image of its C cost
(`SameColumn`), so both keep the same predecessor of every reached state, ties included, and both
tracebacks read the same survivor.
-/

namespace LatentMesh.AirC

open LatentMesh.Lib LatentMesh.AirCore

/-! ## Encoder -/

/-- The register of `lm_air_fec_encode` on one input bit. -/
theorem fec_register : ∀ state : BitVec 6, ∀ bit : Bool,
    parity7 ((((state.toNat <<< 1) ||| bit.toNat) &&& 0x7f) &&& lmAirG0) =
        (code.output0 state bit).toNat ∧
      parity7 ((((state.toNat <<< 1) ||| bit.toNat) &&& 0x7f) &&& lmAirG1) =
        (code.output1 state bit).toNat ∧
      (((state.toNat <<< 1) ||| bit.toNat) &&& 0x7f) &&& 0x3f =
        ((ConvCode.trellis 6).next state bit).toNat := by
  decide

/-- The input bits of the encoder, with the zero tail. -/
def inputWord (input : List UInt8) : List Bool :=
  bitsOf input (8 * input.length) ++ List.replicate memory false

/-- The input word has the bits of the bytes and the tail. -/
@[simp] theorem input_word_length (input : List UInt8) :
    (inputWord input).length = 8 * input.length + memory := by
  simp [inputWord]

/-- The encoder reads the input word, with zeros for the tail. -/
theorem input_word_get (input : List UInt8) {i : Nat} (h : i < (inputWord input).length) :
    (if i < input.length * 8 then getBit input i else 0) = (inputWord input)[i].toNat := by
  simp only [inputWord]
  by_cases hdata : i < input.length * 8
  · rw [if_pos hdata, List.getElem_append_left (by simp; omega), get_bit_eq]
    simp [bitsOf]
  · rw [if_neg hdata, List.getElem_append_right (by simp; omega)]
    simp

/-- The loop of `lm_air_fec_encode` after `count` iterations. -/
theorem fec_encode_loop (input coded : List UInt8)
    (hcoded : 2 * (inputWord input).length ≤ 8 * coded.length) (count : Nat)
    (hcount : count ≤ (inputWord input).length) :
    ∃ buffer, (List.range count).foldl (fecEncodeStep input) (0, coded) =
        (((ConvCode.trellis 6).run (0#6) ((inputWord input).take count)).toNat, buffer) ∧
      buffer.length = coded.length ∧
      bitsOf buffer (2 * count) = code.encodeFrom (0#6) ((inputWord input).take count) := by
  induction count with
  | zero => exact ⟨coded, rfl, rfl, rfl⟩
  | succ count ih =>
      obtain ⟨buffer, hloop, hlength, hbits⟩ := ih (by omega)
      have hget := input_word_get input (show count < (inputWord input).length by omega)
      have htake : (inputWord input).take (count + 1) =
          (inputWord input).take count ++ [(inputWord input)[count]] := by
        rw [List.take_append_getElem]
      generalize (inputWord input)[count] = bit at hget htake
      generalize hstate : (ConvCode.trellis 6).run (0#6) ((inputWord input).take count) = state
        at hloop
      obtain ⟨h0, h1, hnext⟩ := fec_register state bit
      refine ⟨setBit (setBit buffer (count * 2) (code.output0 state bit).toNat) (count * 2 + 1)
        (code.output1 state bit).toNat, ?_, by simpa using hlength, ?_⟩
      · rw [List.range_succ, List.foldl_append, hloop, htake, Trellis.run_append, hstate]
        simp only [List.foldl_cons, List.foldl_nil, fecEncodeStep, hget, h0, h1, hnext]
        rfl
      · rw [htake, ConvCode.encode_from_append, hstate, ← hbits,
          show 2 * (count + 1) = count * 2 + 1 + 1 by omega,
          bits_of_set_bit_next _ (by rw [set_bit_length]; omega),
          bits_of_set_bit_next _ (by omega), Nat.mul_comm count 2, List.append_assoc]
        rfl

/-- The number of coded bits is twice that of the input word. -/
theorem lm_air_fec_encoded_bits_eq {count : Nat} (h : count ≤ lmAirMaxWireBytes) :
    lmAirFecEncodedBits count = 2 * (8 * count + memory) := by
  rw [lmAirFecEncodedBits, if_neg (by omega), Nat.mul_comm, Nat.mul_comm count]
  rfl

/-- The C encoder writes the code word of the input bits. -/
theorem lm_air_fec_encode_eq (input coded : List UInt8) (hinput : input.length ≤ lmAirMaxWireBytes)
    (hcoded : (lmAirFecEncodedBits input.length + 7) / 8 ≤ coded.length) :
    ∃ buffer, lmAirFecEncode input coded =
        (.ok, buffer, (codeWord (bitsOf input (8 * input.length))).length) ∧
      buffer.length = coded.length ∧
      bitsOf buffer (codeWord (bitsOf input (8 * input.length))).length =
        codeWord (bitsOf input (8 * input.length)) := by
  have hbits := lm_air_fec_encoded_bits_eq hinput
  have hword := code_word_length (bitsOf input (8 * input.length))
  rw [bits_of_length] at hword
  obtain ⟨buffer, hloop, hlength, hbuffer⟩ := fec_encode_loop input
    (clearBytes coded ((lmAirFecEncodedBits input.length + 7) / 8))
    (by rw [input_word_length, clear_bytes_length]; omega) (inputWord input).length le_rfl
  rw [List.take_length] at hloop hbuffer
  refine ⟨buffer, ?_, by rw [hlength, clear_bytes_length], ?_⟩
  · have hsteps : input.length * 8 + lmAirFecTailBits = (inputWord input).length := by
      rw [input_word_length, Nat.mul_comm]
      rfl
    have hpos : lmAirFecEncodedBits input.length ≠ 0 := by
      rw [hbits]
      simp only [memory]
      omega
    rw [lmAirFecEncode]
    dsimp only
    rw [if_neg fun h => hpos h.1, if_neg (by omega), hsteps, hloop, hbits, hword]
  · rw [hword, ← input_word_length]
    exact hbuffer

/-! ## One column of the decoder -/

/-- The number of received bits that differ from the output bits of an edge. -/
def edgeErrors (received : Bool × Bool) (source : BitVec 6) (bit : Bool) : Nat :=
  (received.1 ^^ code.output0 source bit).toNat + (received.2 ^^ code.output1 source bit).toNat

/-- An edge of the trellis has two errors at most. -/
theorem edge_errors_le (received : Bool × Bool) (source : BitVec 6) (bit : Bool) :
    edgeErrors received source bit ≤ 2 := by
  have h0 := Bool.toNat_le (received.1 ^^ code.output0 source bit)
  have h1 := Bool.toNat_le (received.2 ^^ code.output1 source bit)
  unfold edgeErrors
  omega

/-- The hard metric counts one error for a differing bit. -/
theorem hard_metric_eq (coded : List UInt8) (i : Nat) (expected : Bool) :
    hardMetric coded i expected.toNat = (byteBit coded i ^^ expected).toNat := by
  rw [hardMetric, get_bit_eq]
  cases byteBit coded i <;> cases expected <;> rfl

/-- The cost of a branch counts the errors of its edge. -/
theorem branch_cost_eq (coded : List UInt8) (t : Nat) (source : BitVec 6) (bit : Bool) :
    branchCost (hardMetric coded) t source.toFin bit.toNat =
      edgeErrors (byteBit coded (2 * t), byteBit coded (2 * t + 1)) source bit := by
  obtain ⟨h0, h1, -⟩ := fec_register source bit
  have hindex : (source.toFin : Nat) = source.toNat := rfl
  rw [branchCost, hindex, h0, h1, hard_metric_eq, hard_metric_eq, edgeErrors, Nat.mul_comm t 2,
    Int.natCast_add]

/-- The metric of an edge on hard bits, from its errors. -/
theorem edge_metric_hard {magnitude : Int8} (h : 0 < magnitude) (received : Bool × Bool)
    (source : BitVec 6) (bit : Bool) :
    edgeMetric (llrOf magnitude received.1, llrOf magnitude received.2) source bit =
      magnitude.toInt * (2 - 2 * edgeErrors received source bit) := by
  have hmetric : ∀ sent expected : Bool, llrMetric (llrOf magnitude sent) expected.toUInt8 =
      magnitude.toInt * (1 - 2 * (sent ^^ expected).toNat) := by
    intro sent expected
    rw [llr_metric_to_uint8]
    cases sent <;> cases expected <;> simp [llrOf, neg_to_int h]
  rw [edgeMetric, branchMetric, output_bit_g0, output_bit_g1, hmetric, hmetric, edgeErrors]
  push_cast
  ring

/-- The predecessors of a state are the sources of its edges. -/
theorem predecessor_eq : ∀ state : BitVec 6,
    predecessor0 state.toFin = (lowerSource state).toFin ∧
      predecessor1 state.toFin = (upperSource state).toFin ∧
      state.toFin.val &&& 1 = (inputBit state).toNat := by
  decide

/-- The Rust score and the C cost of a state after `time` steps. -/
def SameEntry (magnitude : Int8) (time : Nat) : Option Int → Int → Prop
  | none, cost => cost = lmAirMetricInf
  | some score, cost => 0 ≤ cost ∧ cost ≤ 2 * time ∧
      score = magnitude.toInt * (2 * time - 2 * cost)

/-- The Rust scores and the C costs after `time` steps. -/
def SameColumn (magnitude : Int8) (time : Nat) (scores costs : Vector Int 64) : Prop :=
  ∀ state : BitVec 6, SameEntry magnitude time (scoreOf scores state) (costs.get state.toFin)

/-- The predecessor that a survivor word records. -/
def recorded (word : UInt64) (state : BitVec 6) : BitVec 6 :=
  if word.toBitVec.getLsbD state.toNat then upperSource state else lowerSource state

/-- The cost of a path stays below infinity. -/
theorem finite_cost {time : Nat} (h : time < maxSteps) {cost : Int} (hcost : cost ≤ 2 * time) :
    cost < lmAirMetricInf := by
  simp only [maxSteps] at h
  simp only [lmAirMetricInf]
  omega

/-- The candidates of both decoders from one source. -/
theorem same_candidate {magnitude : Int8} (h : 0 < magnitude) {time : Nat}
    (htime : time < maxSteps) {scores costs : Vector Int 64}
    (hcolumn : SameColumn magnitude time scores costs) (coded : List UInt8)
    (state source : BitVec 6) :
    SameEntry magnitude (time + 1)
      (candidateFrom (llrOf magnitude (byteBit coded (2 * time)),
        llrOf magnitude (byteBit coded (2 * time + 1))) scores state source)
      (candidateCost (hardMetric coded) costs time source.toFin (inputBit state).toNat) := by
  have hentry := hcolumn source
  have herrors := edge_errors_le (byteBit coded (2 * time), byteBit coded (2 * time + 1)) source
    (inputBit state)
  rw [candidateFrom, candidateCost, branch_cost_eq]
  cases hscore : scoreOf scores source with
  | none =>
      rw [hscore] at hentry
      rw [if_pos (le_of_eq hentry.symm)]
      rfl
  | some score =>
      rw [hscore] at hentry
      obtain ⟨hlow, hhigh, rfl⟩ := hentry
      have hfinite := finite_cost htime hhigh
      rw [if_neg (by omega), Option.map_some,
        edge_metric_hard h (byteBit coded (2 * time), byteBit coded (2 * time + 1))]
      refine ⟨by omega, by push_cast; omega, ?_⟩
      push_cast
      ring

/-- `UINT64_C(1) << i` has one bit. -/
theorem shifted_one_bit (i j : Fin 64) :
    ((1 : UInt64) <<< UInt64.ofNat i).toBitVec.getLsbD j = (i == j) := by
  have hnat : (UInt64.ofNat i).toNat = i :=
    UInt64.toNat_ofNat_of_lt' (Nat.lt_trans i.isLt (by decide))
  have hget : ((1 : UInt64) <<< UInt64.ofNat i).toBitVec.getLsbD j =
      ((1 : UInt64) <<< UInt64.ofNat i).toNat.testBit j := rfl
  rw [hget, Lib.bit_to_nat (hnat.trans_lt i.isLt), hnat, Nat.testBit_two_pow]
  by_cases hij : i = j
  · simp [hij]
  · rw [beq_eq_false_iff_ne.mpr hij, decide_eq_false fun h => hij (Fin.ext h)]

/-- Bit `state` of the collected decisions is the decision of that state. -/
theorem decision_word_bit (metric : Nat → Nat → Int) (previous : Vector Int 64) (t : Nat)
    (state : Fin 64) :
    (decisionWord metric previous t).toBitVec.getLsbD state =
      decide ((candidates metric previous t state).2 < (candidates metric previous t state).1) := by
  have honly : (List.finRange 64).filter (· == state) = [state] := by
    rw [List.filter_beq,
      List.count_eq_one_of_mem (List.nodup_finRange 64) (List.mem_finRange state)]
    rfl
  rw [decisionWord, foldl_read _ (fun word : UInt64 => word.toBitVec.getLsbD state) (· == state)
    (fun bit s => decide ((candidates metric previous t s).2 <
      (candidates metric previous t s).1) || bit), honly]
  · simp
  · intro word s
    dsimp only
    by_cases hlt : (candidates metric previous t s).2 < (candidates metric previous t s).1
    · rw [if_pos hlt, UInt64.toBitVec_or, BitVec.getLsbD_or, shifted_one_bit]
      by_cases hs : s = state
      · subst hs
        simp [hlt]
      · simp [hs]
    · rw [if_neg hlt]
      simp [hlt]

/-- Both decoders choose the same source of a state. -/
theorem same_choice {magnitude : Int8} (h : 0 < magnitude) {time : Nat} (htime : time ≤ maxSteps)
    {lower upper : Option Int} {cost0 cost1 : Int} (hlower : SameEntry magnitude time lower cost0)
    (hupper : SameEntry magnitude time upper cost1) (state : BitVec 6) :
    (lower = none ∧ upper = none ∧ (if cost1 < cost0 then cost1 else cost0) = lmAirMetricInf) ∨
      ∃ cost, (if cost1 < cost0 then cost1 else cost0) = cost ∧ 0 ≤ cost ∧ cost ≤ 2 * time ∧
        selectSource state lower upper = (magnitude.toInt * (2 * time - 2 * cost),
          stateByte (if cost1 < cost0 then upperSource state else lowerSource state)) := by
  have hfinite : ∀ cost : Int, cost ≤ 2 * time → cost < lmAirMetricInf := by
    intro cost hcost
    simp only [maxSteps] at htime
    simp only [lmAirMetricInf]
    omega
  have hpos := zero_lt_to_int h
  cases lower with
  | none =>
      obtain rfl : cost0 = lmAirMetricInf := hlower
      cases upper with
      | none =>
          obtain rfl : cost1 = lmAirMetricInf := hupper
          exact Or.inl ⟨rfl, rfl, by simp⟩
      | some score1 =>
          obtain ⟨hlow, hhigh, rfl⟩ := hupper
          have hlt := hfinite _ hhigh
          rw [if_pos hlt, if_pos hlt]
          exact Or.inr ⟨cost1, rfl, hlow, hhigh, rfl⟩
  | some score0 =>
      obtain ⟨hlow0, hhigh0, rfl⟩ := hlower
      cases upper with
      | none =>
          obtain rfl : cost1 = lmAirMetricInf := hupper
          have hlt := hfinite _ hhigh0
          rw [if_neg (by omega), if_neg (by omega)]
          exact Or.inr ⟨cost0, rfl, hlow0, hhigh0, rfl⟩
      | some score1 =>
          obtain ⟨hlow1, hhigh1, rfl⟩ := hupper
          -- a larger correlation is a smaller cost
          have horder : magnitude.toInt * (2 * time - 2 * cost0) <
              magnitude.toInt * (2 * time - 2 * cost1) ↔ cost1 < cost0 := by
            rw [mul_lt_mul_iff_right₀ hpos]
            omega
          by_cases hlt : cost1 < cost0
          · rw [if_pos hlt, if_pos hlt]
            exact Or.inr ⟨cost1, rfl, hlow1, hhigh1, if_pos (horder.mpr hlt)⟩
          · rw [if_neg hlt, if_neg hlt]
            exact Or.inr ⟨cost0, rfl, hlow0, hhigh0, if_neg fun hscore => hlt (horder.mp hscore)⟩

/-- The pair of LLRs at step `time`. -/
def hardPair (magnitude : Int8) (coded : List UInt8) (time : Nat) : Int8 × Int8 :=
  (llrOf magnitude (byteBit coded (2 * time)), llrOf magnitude (byteBit coded (2 * time + 1)))

/-- The two candidates that the C decoder compares for a state. -/
theorem candidates_eq (metric : Nat → Nat → Int) (previous : Vector Int 64) (t : Nat)
    (state : BitVec 6) :
    candidates metric previous t state.toFin =
      (candidateCost metric previous t (lowerSource state).toFin (inputBit state).toNat,
        candidateCost metric previous t (upperSource state).toFin (inputBit state).toNat) := by
  obtain ⟨h0, h1, hbit⟩ := predecessor_eq state
  rw [candidates, h0, h1, hbit]

/-- One column, state by state: the entries stay equal, and both decoders keep the same predecessor
of a reached state. -/
theorem same_column_entry {magnitude : Int8} (h : 0 < magnitude) {time : Nat}
    (htime : time < maxSteps) {scores costs : Vector Int 64} (hbounded : Bounded time scores)
    (hcolumn : SameColumn magnitude time scores costs) (coded : List UInt8) (state : BitVec 6) :
    SameEntry magnitude (time + 1)
        (scoreOf (nextColumn scores (hardPair magnitude coded time)).scores state)
        (nextMetrics (hardMetric coded) costs time)[state.toFin] ∧
      ∀ score, scoreOf (nextColumn scores (hardPair magnitude coded time)).scores state =
          some score →
        pick (nextColumn scores (hardPair magnitude coded time)).predecessors state =
          recorded (decisionWord (hardMetric coded) costs time) state := by
  have hlower := same_candidate h htime hcolumn coded state (lowerSource state)
  have hupper := same_candidate h htime hcolumn coded state (upperSource state)
  have hread := next_column_read hbounded htime (hardPair magnitude coded time) state
  have hcandidates := candidates_eq (hardMetric coded) costs time state
  generalize candidateCost (hardMetric coded) costs time (lowerSource state).toFin
    (inputBit state).toNat = cost0 at hlower hcandidates
  generalize candidateCost (hardMetric coded) costs time (upperSource state).toFin
    (inputBit state).toNat = cost1 at hupper hcandidates
  have hcost : (nextMetrics (hardMetric coded) costs time)[state.toFin] =
      if cost1 < cost0 then cost1 else cost0 := by
    simp only [nextMetrics, Fin.getElem_fin, Vector.getElem_ofFn, hcandidates]
  have hrecorded : recorded (decisionWord (hardMetric coded) costs time) state =
      if cost1 < cost0 then upperSource state else lowerSource state := by
    have hbit := decision_word_bit (hardMetric coded) costs time state.toFin
    rw [hcandidates] at hbit
    rw [recorded]
    simp only [show state.toNat = (state.toFin : Nat) from rfl, hbit, decide_eq_true_eq]
  rw [hcost, hrecorded]
  rcases same_choice h htime hlower hupper state with
    ⟨hnone0, hnone1, hinf⟩ | ⟨cost, rfl, hlow, hhigh, hselect⟩
  · -- no source is reached, so neither decoder reaches the state
    have hunreached : scoreOf (nextColumn scores (hardPair magnitude coded time)).scores state =
        none := by
      rw [hardPair] at hread ⊢
      rw [hnone0, hnone1] at hread
      exact if_pos (congrArg Prod.fst hread)
    rw [hunreached]
    exact ⟨hinf, fun score hscore => absurd hscore (by simp)⟩
  · have hchosen := hread.trans hselect
    rcases next_column_cases hbounded htime (hardPair magnitude coded time) state with
      ⟨hmark, -⟩ | ⟨source, before, -, hbefore, hkept, -⟩
    · have hbyte := congrArg Prod.snd (hmark.symm.trans hchosen)
      exact absurd hbyte.symm (state_byte_facts _).1
    · have hvalue := congrArg Prod.fst (hkept.symm.trans hchosen)
      dsimp only at hvalue
      rw [next_column_score hbounded htime hbefore hkept, hvalue]
      refine ⟨⟨hlow, hhigh, rfl⟩, fun score _ => ?_⟩
      have hbyte : (nextColumn scores (hardPair magnitude coded time)).predecessors[state.toFin] =
          stateByte (if cost1 < cost0 then upperSource state else lowerSource state) :=
        congrArg Prod.snd hchosen
      rw [pick, hbyte, state_byte_to_nat]

/-! ## The whole decoder -/

/-- Two more soft values make one more pair. -/
theorem llr_pairs_append (llrs : List Int8) (h : llrs.length % 2 = 0) (first second : Int8) :
    llrPairs (llrs ++ [first, second]) = llrPairs llrs ++ [(first, second)] := by
  induction llrs using llrPairs.induct with
  | case1 a b rest ih =>
      have hrest : rest.length % 2 = 0 := by
        simp only [List.length_cons] at h
        omega
      simp only [List.cons_append, llrPairs, ih hrest]
  | case2 llrs hshort =>
      rcases llrs with _ | ⟨a, _ | ⟨b, rest⟩⟩
      · rfl
      · simp at h
      · exact absurd rfl (hshort a b rest)

/-- The pairs that the Rust decoder reads from hard bits. -/
theorem llr_pairs_hard (magnitude : Int8) (coded : List UInt8) (steps : Nat) :
    llrPairs ((bitsOf coded (2 * steps)).map (llrOf magnitude)) =
      (List.range steps).map (hardPair magnitude coded) := by
  induction steps with
  | zero => rfl
  | succ steps ih =>
      have hrange : (List.range (steps + 1)).map (hardPair magnitude coded) =
          (List.range steps).map (hardPair magnitude coded) ++
            [hardPair magnitude coded steps] := by
        rw [List.range_succ, List.map_append]
        rfl
      rw [show 2 * (steps + 1) = 2 * steps + 1 + 1 by omega, bits_of_succ, bits_of_succ,
        List.append_assoc, List.map_append, hrange, ← ih]
      exact llr_pairs_append _ (by simp) _ _

/-- Both passes start with the same metrics. -/
theorem same_start (magnitude : Int8) :
    SameColumn magnitude 0 ForwardPass.start.scores initialMetrics := by
  intro state
  have hscore := start_scores state.toFin
  have hcost : initialMetrics.get state.toFin =
      if state.toFin.val = 0 then 0 else lmAirMetricInf := Vector.getElem_ofFn ..
  rw [hcost, scoreOf, hscore]
  by_cases hzero : state.toFin.val = 0
  · rw [if_pos (Fin.ext hzero), if_pos hzero, if_neg (by decide)]
    exact ⟨le_rfl, by simp, by simp⟩
  · rw [if_neg fun hstate => hzero (congrArg Fin.val hstate), if_neg hzero, if_pos rfl]
    rfl

/-- One step more of the forward pass. -/
@[simp] theorem fec_forward_succ (metric : Nat → Nat → Int) (steps : Nat) :
    fecForward metric (steps + 1) =
      (nextMetrics metric (fecForward metric steps).1 steps,
        (fecForward metric steps).2 ++
          [decisionWord metric (fecForward metric steps).1 steps]) := by
  rw [fecForward, List.range_succ, List.foldl_append]
  rfl

/-- The forward pass keeps a word of decisions for every step. -/
@[simp] theorem fec_forward_length (metric : Nat → Nat → Int) (steps : Nat) :
    (fecForward metric steps).2.length = steps := by
  induction steps with
  | zero => rfl
  | succ steps ih => simp [ih]

/-- The Rust forward pass over the first `steps` pairs of hard bits. -/
def hardPass (magnitude : Int8) (coded : List UInt8) (steps : Nat) : ForwardPass :=
  forwardPass ((List.range steps).map (hardPair magnitude coded))

/-- One step more of the pass over hard bits. -/
theorem hard_pass_succ (magnitude : Int8) (coded : List UInt8) (steps : Nat) :
    hardPass magnitude coded (steps + 1) =
      (hardPass magnitude coded steps).step (hardPair magnitude coded steps) := by
  rw [hardPass, List.range_succ, List.map_append]
  exact forward_pass_append _ _

/-- The scores of the pass over hard bits stay bounded. -/
theorem hard_pass_bounded (magnitude : Int8) (coded : List UInt8) {steps : Nat}
    (h : steps ≤ maxSteps) : Bounded steps (hardPass magnitude coded steps).scores := by
  have hbounded := forward_pass_bounded ((List.range steps).map (hardPair magnitude coded))
    (by simpa using h)
  rwa [List.length_map, List.length_range] at hbounded

/-- The two forward passes keep equal entries. -/
theorem same_forward {magnitude : Int8} (h : 0 < magnitude) (coded : List UInt8) (steps : Nat)
    (hsteps : steps ≤ maxSteps) :
    SameColumn magnitude steps (hardPass magnitude coded steps).scores
      (fecForward (hardMetric coded) steps).1 := by
  induction steps with
  | zero => exact same_start magnitude
  | succ steps ih =>
      rw [hard_pass_succ, fec_forward_succ]
      intro state
      exact (same_column_entry h hsteps (hard_pass_bounded magnitude coded (by omega))
        (ih (by omega)) coded state).1

/-- The two forward passes keep the same survivor of every reached state. -/
theorem same_survivor {magnitude : Int8} (h : 0 < magnitude) (coded : List UInt8) (steps : Nat)
    (hsteps : steps ≤ maxSteps) {state : BitVec 6} {score : Int}
    (hreached : scoreOf (hardPass magnitude coded steps).scores state = some score) :
    Trellis.survivor inputBit ((hardPass magnitude coded steps).history.map pick) state =
      Trellis.survivor inputBit ((fecForward (hardMetric coded) steps).2.reverse.map recorded)
        state := by
  induction steps generalizing state score with
  | zero => rfl
  | succ steps ih =>
      have hbounded := hard_pass_bounded magnitude coded (show steps ≤ maxSteps by omega)
      have hsame := same_forward h coded steps (by omega)
      rw [hard_pass_succ] at hreached ⊢
      obtain ⟨before, hbefore, -⟩ := (next_column_relaxed hbounded (by omega)
        (fun _ => edgeMetric (hardPair magnitude coded steps)) fun _ _ => rfl).attained
        state score hreached
      have hpick := (same_column_entry h (by omega) hbounded hsame coded state).2 score hreached
      rw [fec_forward_succ, List.reverse_append]
      simp only [ForwardPass.step, List.map_cons, Trellis.survivor, List.reverse_singleton,
        List.singleton_append, ← hpick]
      rw [ih (by omega) hbefore]

/-! ## Traceback -/

/-- The traceback reads the decision of its state. -/
theorem shifted_decision (word : UInt64) {state : Nat} (h : state < 64) :
    ((word >>> UInt64.ofNat state) &&& 1).toNat = (word.toBitVec.getLsbD state).toNat := by
  have hmod : (UInt64.ofNat state).toNat % 64 = state := by
    rw [UInt64.toNat_ofNat']
    omega
  have hget : word.toBitVec.getLsbD state = word.toNat.testBit state := rfl
  rw [UInt64.toNat_and, UInt64.toNat_shiftRight, hmod, hget, Nat.toNat_testBit,
    Nat.shiftRight_eq_div_pow]
  exact Nat.and_one_is_mod _

/-- The traceback goes to the predecessor that was chosen. -/
theorem traceback_state : ∀ state : BitVec 6, state.toNat &&& 1 = (inputBit state).toNat ∧
    ∀ high : Bool, (state.toNat >>> 1) ||| (high.toNat <<< 5) =
      (if high then upperSource state else lowerSource state).toNat := by
  decide

/-- The traceback keeps the length of the output. -/
@[simp] theorem fec_traceback_length (survivor : List UInt64) (outputBits steps state : Nat)
    (output : List UInt8) :
    (fecTraceback survivor outputBits steps state output).length = output.length := by
  induction steps generalizing state output with
  | zero => rfl
  | succ step ih =>
      rw [fecTraceback, ih]
      split <;> simp

/-- The C traceback writes the survivor. -/
theorem fec_traceback_bits (survivor : List UInt64) (outputBits steps : Nat)
    (hsteps : steps ≤ survivor.length) (output : List UInt8)
    (houtput : outputBits ≤ 8 * output.length) (state : BitVec 6) :
    bitsOf (fecTraceback survivor outputBits steps state.toNat output) outputBits =
      (Trellis.survivor inputBit ((survivor.take steps).reverse.map recorded) state).take
        outputBits ++ (bitsOf output outputBits).drop steps := by
  induction steps generalizing output state with
  | zero => simp [fecTraceback, Trellis.survivor]
  | succ step ih =>
      obtain ⟨hinput, hnext⟩ := traceback_state state
      have hword : survivor.getD step 0 = survivor[step] := List.getD_eq_getElem survivor 0 hsteps
      have htake : (survivor.take (step + 1)).reverse.map recorded =
          recorded survivor[step] :: (survivor.take step).reverse.map recorded := by
        rw [← List.take_append_getElem hsteps, List.reverse_append]
        rfl
      have hlength : (Trellis.survivor inputBit ((survivor.take step).reverse.map recorded)
          (recorded survivor[step] state)).length = step := by
        simp only [Trellis.survivor_length, List.length_map, List.length_reverse, List.length_take]
        omega
      rw [fecTraceback, hword, shifted_decision _ state.isLt, hinput, hnext, htake,
        Trellis.survivor]
      by_cases hstep : step < outputBits
      · rw [if_pos hstep]
        have hrest := ih (by omega) (setBit output step (inputBit state).toNat)
          (by rwa [set_bit_length]) (recorded survivor[step] state)
        have hset : ((bitsOf output outputBits).set step (inputBit state)).drop step =
            inputBit state :: (bitsOf output outputBits).drop (step + 1) := by
          rw [List.drop_eq_getElem_cons (by simpa using hstep), List.getElem_set_self,
            List.drop_set_of_lt (Nat.lt_succ_self step)]
        rw [bits_of_set_bit _ (by omega), hset, List.take_of_length_le (by omega)] at hrest
        rw [List.take_of_length_le (by
          simp only [List.length_append, List.length_singleton]
          omega),
          List.append_assoc]
        exact hrest
      · have hrest := ih (by omega) output houtput (recorded survivor[step] state)
        rw [if_neg hstep, List.take_append_of_le_length (by omega),
          List.drop_eq_nil_of_le (by simp; omega)]
        rw [List.drop_eq_nil_of_le (by simp; omega)] at hrest
        exact hrest

/-! ## The decoders agree -/

/-- The hard decoder succeeds, and it writes the data bits of the Rust survivor. -/
theorem lm_air_fec_decode_hard_survivor {magnitude : Int8} (h : 0 < magnitude) {count : Nat}
    (hcount : count ≤ lmAirMaxWireBytes) (coded output : List UInt8)
    (houtput : count ≤ output.length) {data : List Bool} (hdata : data.length = 8 * count)
    (hsurvivor : survivorWord (llrPairs ((bitsOf coded (lmAirFecEncodedBits count)).map
      (llrOf magnitude))) = data ++ List.replicate memory false) :
    ∃ buffer metric, lmAirFecDecodeHard coded (lmAirFecEncodedBits count) output count =
        (.ok, buffer, metric) ∧ buffer.length = output.length ∧
      bitsOf buffer (8 * count) = data := by
  have hbits := lm_air_fec_encoded_bits_eq hcount
  generalize hsteps : 8 * count + memory = steps at hbits
  have hmost : steps ≤ lmAirFecMaxSteps := by
    rw [← hsteps, lmAirFecMaxSteps, lmAirFecTailBits, memory]
    omega
  have hmax : steps ≤ maxSteps := le_trans hmost (by decide)
  rw [hbits, llr_pairs_hard] at hsurvivor
  -- state zero is reached, so its cost is finite
  obtain ⟨score, -, hscore, -⟩ := survivor_word_terminated
    ((List.range steps).map (hardPair magnitude coded)) (by simp; omega) (by simpa using hmax)
  change scoreOf (hardPass magnitude coded steps).scores (0#6) = some score at hscore
  have hentry := same_forward h coded steps hmax (0#6)
  rw [hscore] at hentry
  have hfinite : ¬ lmAirMetricInf ≤
      (fecForward (hardMetric coded) steps).1.get ⟨0, first_state_lt⟩ := by
    obtain ⟨-, hhigh, -⟩ := hentry
    change (fecForward (hardMetric coded) steps).1.get ⟨0, first_state_lt⟩ ≤ _ at hhigh
    simp only [maxSteps] at hmax
    simp only [lmAirMetricInf]
    omega
  have hword : Trellis.survivor inputBit
      (((fecForward (hardMetric coded) steps).2.take steps).reverse.map recorded) (0#6) =
        data ++ List.replicate memory false := by
    rw [List.take_of_length_le (by simp), ← same_survivor h coded steps hmax hscore]
    exact hsurvivor
  have htrace := fec_traceback_bits (fecForward (hardMetric coded) steps).2 (8 * count) steps
    (by simp) (clearBytes output count) (by rw [clear_bytes_length]; omega) (0#6)
  rw [hword, List.take_left' hdata, List.drop_eq_nil_of_le (by simp; omega), List.append_nil]
    at htrace
  refine ⟨_, (fecForward (hardMetric coded) steps).1.get ⟨0, first_state_lt⟩, ?_, ?_, htrace⟩
  · have heven : (2 * steps) &&& 1 = 0 := by
      rw [Nat.and_one_is_mod]
      omega
    rw [lmAirFecDecodeHard, fecDecode, if_neg (by omega)]
    dsimp only
    rw [hbits, if_neg (by rw [heven]; simp), if_neg (by omega),
      Nat.mul_div_cancel_left steps (by decide), if_neg hfinite, Nat.mul_comm count 8]
    rfl
  · rw [fec_traceback_length, clear_bytes_length]

/-- A buffer holds a bit string. -/
def Stores (buffer bits : List UInt8) : Prop :=
  bits.length ≤ 8 * buffer.length ∧ ∀ i (h : i < bits.length), getBit buffer i = bits[i].toNat

/-- A buffer stores a word when the word fits and the first bits are its bits. -/
theorem stores_word_iff {buffer : List UInt8} {word : List Bool} :
    Stores buffer (word.map Bool.toUInt8) ↔
      word.length ≤ 8 * buffer.length ∧ bitsOf buffer word.length = word := by
  have hbit : ∀ bit : Bool, bit.toUInt8.toNat = bit.toNat := by decide
  have hinjective : ∀ a b : Bool, a.toNat = b.toNat → a = b := by decide
  simp only [Stores, List.length_map, List.getElem_map, hbit]
  refine and_congr_right fun _ => ⟨fun hget => ?_, fun hword i hi => ?_⟩
  · refine List.ext_getElem (bits_of_length _ _) fun i hi hi' => ?_
    have hi := hget i hi'
    rw [get_bit_eq] at hi
    simp only [bitsOf, List.getElem_map, List.getElem_range]
    exact hinjective _ _ hi
  · have hget : (bitsOf buffer word.length)[i]? = word[i]? := by rw [hword]
    rw [bits_of_get _ hi, List.getElem?_eq_getElem hi] at hget
    rw [get_bit_eq, Option.some.inj hget]

/-- The decoders agree on every hard bit string, and the encoders on every byte string. The bit
string of the C side is packed into a buffer; every bit string has one. -/
theorem fec_codecs_agree :
    (∀ count, 1 ≤ count → count ≤ 256 → ∀ bits : List UInt8, (∀ bit ∈ bits, bit ≤ 1) →
      bits.length = 2 * (8 * count + 6) → ∀ magnitude : Int8, 0 < magnitude →
      ∃ llrs result bytes, hardBitsToLlrs bits magnitude = .ok llrs ∧
        softViterbiDecode llrs = .ok result ∧ bitsToBytesMsb result.bits = .ok bytes ∧
        (∃ coded, Stores coded bits) ∧
        ∀ coded output, Stores coded bits → count ≤ output.length →
          ∃ buffer metric,
            lmAirFecDecodeHard coded bits.length output count = (.ok, buffer, metric) ∧
              buffer.take count = bytes) ∧
      ∀ input coded : List UInt8, input.length ≤ 256 →
        (lmAirFecEncodedBits input.length + 7) / 8 ≤ coded.length →
        ∃ bits buffer, convolutionalEncode (bytesToBitsMsb input) = .ok bits ∧
          lmAirFecEncode input coded = (.ok, buffer, bits.length) ∧ Stores buffer bits := by
  constructor
  · intro count hmin hcount bits hbits hlength magnitude hmagnitude
    obtain ⟨word, rfl⟩ := exists_word hbits
    rw [List.length_map] at hlength
    have haccepted : AcceptedLength (word.map (llrOf magnitude)).length := by
      rw [List.length_map, hlength]
      refine ⟨?_, ?_, by omega, ?_⟩
      · simp only [memory]
        omega
      · simp only [maxCodedBits, frameMaxBytes, memory]
        omega
      · simp only [memory]
        omega
    obtain ⟨data, hdata, hsurvivor, hdecode, -⟩ := soft_viterbi_word haccepted
    have hdata_length : data.length = 8 * count := by
      rw [hdata, List.length_map, hlength, memory]
      omega
    obtain ⟨bytes, hbytes, hpacked⟩ := exists_buffer data (le_of_eq hdata_length)
    have hencoded : lmAirFecEncodedBits count = word.length := by
      rw [lm_air_fec_encoded_bits_eq hcount, hlength, memory]
    refine ⟨_, _, bytes, hard_bits_to_llrs_word hmagnitude word, hdecode, ?_, ?_, ?_⟩
    · have hpack := bits_to_bytes_msb_bits_of bytes
      rwa [hbytes, ← hdata_length, hpacked] at hpack
    · obtain ⟨coded, hsize, hword⟩ := exists_buffer word
        (show word.length ≤ 8 * (2 * count + 2) by omega)
      exact ⟨coded, stores_word_iff.mpr ⟨by omega, hword⟩⟩
    · intro coded output hstores houtput
      obtain ⟨-, hword⟩ := stores_word_iff.mp hstores
      obtain ⟨buffer, metric, hbuffer, hlength', hdata'⟩ := lm_air_fec_decode_hard_survivor
        hmagnitude hcount coded output houtput hdata_length (by rwa [hencoded, hword])
      refine ⟨buffer, metric, by rwa [List.length_map, ← hencoded], ?_⟩
      have htake : (buffer.take count).length = count := by
        rw [List.length_take]
        omega
      refine bytes_ext (by rw [htake, hbytes]) ?_
      rw [htake, bits_of_take _ le_rfl, hdata', ← hdata_length, hpacked]
  · intro input coded hinput hcoded
    obtain ⟨buffer, hencode, hlength, hbits⟩ := lm_air_fec_encode_eq input coded hinput hcoded
    have hsmall : (bitsOf input (8 * input.length)).length ≤ frameMaxBytes * 8 := by
      rw [bits_of_length, frameMaxBytes]
      omega
    have hword := code_word_length (bitsOf input (8 * input.length))
    have hstores : (codeWord (bitsOf input (8 * input.length))).length ≤ 8 * buffer.length := by
      rw [lm_air_fec_encoded_bits_eq hinput] at hcoded
      rw [hword, bits_of_length, hlength]
      omega
    refine ⟨(codeWord (bitsOf input (8 * input.length))).map Bool.toUInt8, buffer, ?_, ?_,
      stores_word_iff.mpr ⟨hstores, hbits⟩⟩
    · rw [bytes_to_bits_msb_eq]
      exact convolutional_encode_word hsmall
    · rw [List.length_map]
      exact hencode

end LatentMesh.AirC
