import LatentMesh.AirRadio.Stream

/-!
# The deframer and the aligned decoder

Behind the first sync word of a stream, the deframer reads the length header from the first LLR that
is not `i8::MIN`, because it marks the end of the search with that value. It agrees with the aligned
decoder on bursts whose header does not start with it: see
`SoftBurstReceiver.agrees_with_aligned_iff`.
-/

namespace LatentMesh.AirRadio

open LatentMesh.AirCore LatentMesh.Lib

/-! ## Sync words in a stream -/

/-- The signs of LLRs. -/
def signs (llrs : List Int8) : List Bool := llrs.map fun llr => decide (0 < llr)

/-- The signs of values, the first apart. -/
theorem signs_cons (llr : Int8) (llrs : List Int8) :
    signs (llr :: llrs) = decide (0 < llr) :: signs llrs := rfl

/-- The signs of joined values. -/
theorem signs_append (first second : List Int8) :
    signs (first ++ second) = signs first ++ signs second :=
  List.map_append

/-- Every value has a sign. -/
@[simp] theorem signs_length (llrs : List Int8) : (signs llrs).length = llrs.length :=
  List.length_map _

/-- A stream has the sync word at a position. -/
def SyncAt (llrs : List Int8) (position : Nat) : Prop :=
  position + syncBits ≤ llrs.length ∧ syncErrors (llrs.drop position) = 0

instance (llrs : List Int8) (position : Nat) : Decidable (SyncAt llrs position) :=
  inferInstanceAs (Decidable (_ ∧ _))

/-- LLRs without a sync error have the expected signs. -/
theorem no_sync_errors_iff (window : List Int8) (start : Nat) :
    (window.zipIdx start).countP (fun entry => decide (0 < entry.1) != expectedSync entry.2) = 0 ↔
      signs window = (List.range' start window.length).map expectedSync := by
  induction window generalizing start with
  | nil => exact iff_of_true rfl rfl
  | cons llr window ih =>
      have hhead : (decide (0 < llr) != expectedSync start) = true ↔
          decide (0 < llr) ≠ expectedSync start := bne_iff_ne
      rw [List.zipIdx_cons, List.countP_cons, Nat.add_eq_zero_iff, ih, signs_cons,
        List.length_cons, List.range'_succ, List.map_cons, List.cons.injEq, and_comm]
      refine and_congr_left fun _ => ?_
      by_cases hsign : decide (0 < llr) = expectedSync start
      · simp [hsign]
      · simp [hhead.mpr hsign, hsign]

/-- No sync error means the signs of the sync word. -/
theorem sync_errors_eq_zero_iff {window : List Int8} (rest : List Int8)
    (h : window.length = syncBits) :
    syncErrors (window ++ rest) = 0 ↔ signs window = syncWordBits := by
  rw [syncErrors, List.take_left' h, no_sync_errors_iff, h]
  rfl

/-! ## Decoded lengths -/

/-- Eight bits make a byte. -/
theorem pack_bits_length (bits : List UInt8) : (packBits bits).length = bits.length / 8 := by
  fun_induction packBits bits with
  | case1 b7 b6 b5 b4 b3 b2 b1 b0 rest ih =>
      simp only [List.length_cons, ih]
      omega
  | case2 bits hshort =>
      match bits, hshort with
      | b7 :: b6 :: b5 :: b4 :: b3 :: b2 :: b1 :: b0 :: rest, hshort =>
          exact absurd rfl (hshort b7 b6 b5 b4 b3 b2 b1 b0 rest)
      | [], _ | [_], _ | [_, _], _ | [_, _, _], _ | [_, _, _, _], _ | [_, _, _, _, _], _
      | [_, _, _, _, _, _], _ | [_, _, _, _, _, _, _], _ => simp

variable (codec : BurstCodec)

/-- A coded section of an accepted length decodes to a frame of the length that it carries. -/
theorem decode_coded_accepted {coded : List Int8} (h : AcceptedLength coded.length) :
    ∃ frame, codec.decodeCoded coded = .ok frame ∧
      8 * frame.length + memory = coded.length / 2 := by
  have hordered := deinterleave_soft_eq coded codec.columns_pos (columns_le_max_coded_bits codec)
  have hscatter : (scatter (interleaveOrder coded.length codec.interleaverColumns) coded
      (List.replicate coded.length 0)).length = coded.length := by
    rw [scatter_length, List.length_replicate]
  obtain ⟨data, hdata, -, hdecode, -⟩ := soft_viterbi_word (hscatter.symm ▸ h)
  rw [hscatter] at hdata
  have hwhole := h.whole
  have hleast := h.least
  have hbits : ¬ ((data.map Bool.toUInt8).length % 8 ≠ 0 ∨
      ∃ bit ∈ data.map Bool.toUInt8, 1 < bit) := by
    rintro (hragged | ⟨bit, hmem, hlt⟩)
    · rw [List.length_map] at hragged
      omega
    · exact absurd (word_le_one _ bit hmem) (UInt8.not_le.mpr hlt)
  refine ⟨packBits (data.map Bool.toUInt8), ?_, ?_⟩
  · rw [BurstCodec.decodeCoded, hordered]
    dsimp only [Except.bind]
    rw [hdecode]
    dsimp only
    rw [bitsToBytesMsb, if_neg hbits]
  · rw [pack_bits_length, List.length_map]
    omega

/-- Any other length is refused. -/
theorem decode_coded_refused {coded : List Int8} (h : ¬ AcceptedLength coded.length) :
    ∃ error, codec.decodeCoded coded = .error error := by
  have hordered := deinterleave_soft_eq coded codec.columns_pos (columns_le_max_coded_bits codec)
  have hscatter : (scatter (interleaveOrder coded.length codec.interleaverColumns) coded
      (List.replicate coded.length 0)).length = coded.length := by
    rw [scatter_length, List.length_replicate]
  refine ⟨.invalidFec, ?_⟩
  rw [BurstCodec.decodeCoded, hordered]
  dsimp only [Except.bind]
  rw [soft_viterbi_rejects (hscatter.symm ▸ h)]

namespace SoftBurstReceiver

/-- The shift register takes the sign of a value. -/
theorem shift_sign_eq_next (shift : UInt32) (llr : Int8) :
    (shiftSign shift llr).toBitVec =
      (ConvCode.trellis 32).next shift.toBitVec (decide (0 < llr)) := by
  apply BitVec.eq_of_getLsbD_eq
  intro i hi
  cases i with
  | zero =>
      cases hsign : decide (0 < llr) <;>
        simp [shiftSign, hsign, ConvCode.trellis, ConvCode.register]
  | succ i =>
      have hget : shift.toBitVec[i] = shift.toBitVec.getLsbD i := rfl
      cases hsign : decide (0 < llr) <;>
        simp [shiftSign, hsign, ConvCode.trellis, ConvCode.register, hi, hget]

/-- The search register reads the signs of the stream. -/
theorem shift_of_eq_run (llrs : List Int8) :
    (shiftOf llrs).toBitVec = (ConvCode.trellis 32).run 0#32 (signs llrs) := by
  induction llrs using List.reverseRecOn with
  | nil => rfl
  | append_singleton llrs llr ih =>
      rw [shift_of_append, shift_sign_eq_next, ih, signs_append, Trellis.run_append]
      rfl

/-- The sync word as the register holds it. -/
theorem phy_sync_bits :
    ∀ i < 32, phySync.toBitVec.getLsbD i = syncWordBits.reverse.getD i false := by
  decide

/-- The search register holds the sync word exactly behind 32 LLRs with its signs. -/
theorem shift_of_eq_sync_iff (front : List Int8) {window : List Int8}
    (h : window.length = syncBits) :
    shiftOf (front ++ window) = phySync ↔ signs window = syncWordBits := by
  have hbits : syncBits = 32 := rfl
  have hget : ∀ i < 32, (shiftOf (front ++ window)).toBitVec.getLsbD i =
      (signs window).reverse.getD i false := by
    intro i hi
    rw [shift_of_eq_run, ConvCode.run_get _ _ hi (by simp; omega), signs_append,
      List.reverse_append, List.getD_append _ _ _ _ (by simp; omega)]
  constructor
  · intro hshift
    apply List.reverse_injective
    apply List.ext_getElem
    · rw [List.length_reverse, signs_length, h]
      rfl
    · intro i hi hi'
      have hi32 : i < 32 := by
        rw [List.length_reverse, signs_length, h] at hi
        exact hi
      have hbit := hget i hi32
      rw [hshift, phy_sync_bits i hi32, List.getD_eq_getElem _ _ hi,
        List.getD_eq_getElem _ _ hi'] at hbit
      exact hbit.symm
  · intro hsigns
    apply UInt32.toBitVec_inj.mp
    apply BitVec.eq_of_getLsbD_eq
    intro i hi
    rw [hget i hi, hsigns, phy_sync_bits i hi]

/-- The deframer starts to read a header behind the first sync word of a stream. -/
theorem feed_to_header {front burst : List Int8} (hburst : syncBits ≤ burst.length)
    (hsync : syncErrors burst = 0)
    (hfirst : ∀ position < front.length, ¬ SyncAt (front ++ burst) position) :
    ∃ seen, (new codec).feed (front ++ burst.take syncBits) =
      (collecting codec seen [Int8.minValue], []) := by
  have hbits : syncBits = 32 := rfl
  have hwindow : (burst.take syncBits).length = syncBits := by
    rw [List.length_take]
    omega
  have hsigns : signs (burst.take syncBits) = syncWordBits := by
    rw [← sync_errors_eq_zero_iff (burst.drop syncBits) hwindow, List.take_append_drop]
    exact hsync
  have hshift := (shift_of_eq_sync_iff front hwindow).mpr hsigns
  -- no earlier position completes the sync word
  have hearlier : ∀ count ≤ front.length + 31, count < syncBits ∨
      shiftOf ((front ++ burst).take count) ≠ phySync := by
    intro count hcount
    by_cases hsmall : count < syncBits
    · exact Or.inl hsmall
    · refine Or.inr fun hfound => hfirst (count - syncBits) (by omega) ⟨?_, ?_⟩
      · rw [List.length_append]
        omega
      · have hsplit : (front ++ burst).take count = (front ++ burst).take (count - syncBits) ++
            ((front ++ burst).drop (count - syncBits)).take syncBits := by
          rw [← List.take_add, Nat.sub_add_cancel (Nat.not_lt.mp hsmall)]
        have hlength : (((front ++ burst).drop (count - syncBits)).take syncBits).length =
            syncBits := by
          rw [List.length_take, List.length_drop, List.length_append]
          omega
        rw [hsplit, shift_of_eq_sync_iff _ hlength] at hfound
        have herrors := (sync_errors_eq_zero_iff
          (((front ++ burst).drop (count - syncBits)).drop syncBits) hlength).mpr hfound
        rwa [List.take_append_drop] at herrors
  rcases List.eq_nil_or_concat (front ++ burst.take syncBits) with hnil | ⟨llrs, llr, hlast⟩
  · rw [List.append_eq_nil_iff] at hnil
    rw [hnil.2] at hwindow
    cases hwindow
  · have hlength : front.length + 32 = llrs.length + 1 := by
      have hcount := congrArg List.length hlast
      rw [List.length_append, hwindow, List.length_concat] at hcount
      exact hcount
    rw [List.concat_eq_append] at hlast
    have hfrontTake : ∀ count ≤ llrs.length, llrs.take count = (front ++ burst).take count := by
      intro count hcount
      have htake : (front ++ burst.take syncBits).take count = (front ++ burst).take count := by
        rw [List.take_append, List.take_append, List.take_take, Nat.min_eq_left (by omega)]
      rw [← htake, hlast, List.take_append_of_le_length hcount]
    refine ⟨_, hlast ▸ feed_sync codec (fun count hcount => ?_) (by omega) (hlast ▸ hshift)⟩
    rw [hfrontTake count hcount]
    exact hearlier count (by omega)

/-! ## Agreement -/

/-- A burst with the exact sync word and as many coded LLRs as its length header announces, if that
length is one that a burst can have. -/
structure Complete (burst : List Int8) : Prop where
  length : phyPrefixBits ≤ burst.length
  sync : syncErrors burst = 0
  coded : badCodedLength (announcedLength (burst.drop syncBits)) ∨
    burst.length = phyPrefixBits + announcedLength (burst.drop syncBits)

/-- The LLRs behind a sync word hold a malformed burst: a header with an impossible length, or a
whole coded section that does not hold whole bytes. -/
def Malformed (llrs : List Int8) : Prop :=
  lengthBitsRepeated ≤ llrs.length ∧
    (badCodedLength (announcedLength llrs) ∨
      (lengthBitsRepeated + announcedLength llrs ≤ llrs.length ∧
        (announcedLength llrs / 2 - memory) % 8 ≠ 0))

/-- The same result as the aligned decoder: the same frame and nothing else, or an error. -/
def Agrees (results : List (Result (List UInt8))) : Result (List UInt8) → Prop
  | .ok frame => results = [.ok frame]
  | .error _ => ∃ error, results.head? = some (.error error)

/-- A length is accepted when it is that of whole bytes. -/
theorem accepted_length_iff {length : Nat} (h : ¬ badCodedLength length) :
    AcceptedLength length ↔ (length / 2 - memory) % 8 = 0 := by
  rw [badCodedLength] at h
  have hmemory : memory = 6 := rfl
  exact ⟨fun haccepted => haccepted.whole, fun hwhole => ⟨by omega, by omega, by omega, hwhole⟩⟩

/-- Reading a burst fails exactly when it is malformed. -/
theorem read_burst_error_iff (llrs : List Int8) :
    (∃ error, readBurst codec llrs = some (.error error)) ↔ Malformed llrs := by
  rw [readBurst, Malformed]
  by_cases hshort : llrs.length < lengthBitsRepeated
  · simp [hshort]
  · rw [if_neg hshort]
    by_cases hbad : badCodedLength (announcedLength llrs)
    · simp [hbad, Nat.not_lt.mp hshort]
    · rw [if_neg hbad]
      by_cases hcut : llrs.length < lengthBitsRepeated + announcedLength llrs
      · simp [hbad, hcut]
      · have hlength : ((llrs.drop lengthBitsRepeated).take (announcedLength llrs)).length =
            announcedLength llrs := by
          rw [List.length_take, List.length_drop]
          omega
        have haccepted := accepted_length_iff hbad
        rw [← hlength] at haccepted
        rw [if_neg hcut]
        constructor
        · rintro ⟨error, herror⟩
          refine ⟨by omega, Or.inr ⟨by omega, fun hwhole => ?_⟩⟩
          rw [hlength] at haccepted
          obtain ⟨frame, hframe, -⟩ := decode_coded_accepted codec (hlength ▸ haccepted.mpr hwhole)
          rw [hframe] at herror
          cases herror
        · rintro ⟨-, hmalformed | ⟨-, hragged⟩⟩
          · exact absurd hmalformed hbad
          · rw [hlength] at haccepted
            obtain ⟨error, herror⟩ := decode_coded_refused codec
              (fun h => hragged (haccepted.mp (hlength ▸ h)))
            exact ⟨error, by rw [herror]⟩

/-- A frame that is read has the length that the header announces. -/
theorem length_of_read_burst {llrs : List Int8} {frame : List UInt8}
    (h : readBurst codec llrs = some (.ok frame)) :
    lengthBitsRepeated + announcedLength llrs ≤ llrs.length ∧
      2 * (8 * frame.length + memory) = announcedLength llrs := by
  rw [readBurst] at h
  split at h
  · cases h
  · rename_i hshort
    split at h
    · cases h
    · rename_i hbad
      split at h
      · cases h
      · rename_i hcut
        have hlength : ((llrs.drop lengthBitsRepeated).take (announcedLength llrs)).length =
            announcedLength llrs := by
          rw [List.length_take, List.length_drop]
          omega
        have hdecode := Option.some.inj h
        by_cases haccepted : AcceptedLength (announcedLength llrs)
        · obtain ⟨other, hother, hbits⟩ := decode_coded_accepted codec (hlength ▸ haccepted)
          rw [hdecode] at hother
          cases hother
          rw [hlength] at hbits
          have heven := haccepted.even
          exact ⟨by omega, by omega⟩
        · obtain ⟨error, herror⟩ := decode_coded_refused codec (fun h => haccepted (hlength ▸ h))
          rw [hdecode] at herror
          cases herror

/-- The aligned decoder reads a complete burst behind its sync word. -/
theorem read_burst_complete {burst : List Int8} (h : Complete burst) :
    readBurst codec (burst.drop syncBits) = some (codec.decodeAligned burst) := by
  obtain ⟨hlength, hsync, hcoded⟩ := h
  have hbits : phyPrefixBits = syncBits + lengthBitsRepeated := rfl
  have hheader : (burst.take phyPrefixBits).drop syncBits =
      (burst.drop syncBits).take lengthBitsRepeated := by
    rw [List.drop_take]
    rfl
  have hread : decodeRepeatedLength ((burst.drop syncBits).take lengthBitsRepeated) =
      .ok (announcedLength (burst.drop syncBits)) := by
    refine if_neg ?_
    rw [List.length_take, List.length_drop]
    omega
  have hrest : (burst.drop syncBits).length = burst.length - syncBits := List.length_drop ..
  rw [BurstCodec.decodeAligned, if_neg (by omega), if_neg (by omega), hheader, hread]
  dsimp only [Except.bind]
  rw [readBurst, if_neg (by omega)]
  by_cases hbad : badCodedLength (announcedLength (burst.drop syncBits))
  · rw [if_pos hbad, if_pos hbad]
  · have htotal := hcoded.resolve_left hbad
    have hsection : ((burst.drop syncBits).drop lengthBitsRepeated).take
        (announcedLength (burst.drop syncBits)) = burst.drop phyPrefixBits := by
      rw [List.drop_drop, ← hbits, List.take_of_length_le]
      rw [List.length_drop]
      omega
    rw [if_neg hbad, if_neg hbad, if_neg (by omega), if_neg (by omega), hsection]

/-- A complete burst of an accepted length decodes. -/
theorem decode_aligned_accepted {burst : List Int8} (h : Complete burst)
    (haccepted : AcceptedLength (announcedLength (burst.drop syncBits))) :
    ∃ frame, codec.decodeAligned burst = .ok frame := by
  have hnot : ¬ Malformed (burst.drop syncBits) := by
    rintro ⟨-, hbad | ⟨-, hragged⟩⟩
    · have hleast := haccepted.least
      have hmost := haccepted.most
      have heven := haccepted.even
      have hmemory : memory = 6 := rfl
      rw [badCodedLength] at hbad
      omega
    · exact hragged haccepted.whole
  cases hresult : codec.decodeAligned burst with
  | ok frame => exact ⟨frame, rfl⟩
  | error error =>
      have hread := read_burst_complete codec h
      rw [hresult] at hread
      exact absurd ((read_burst_error_iff codec _).mp ⟨error, hread⟩) hnot

variable {front burst : List Int8}

/-- The first result that the deframer yields on a stream with a complete burst. -/
theorem head_feed_burst (h : Complete burst)
    (hfirst : ∀ position < front.length, ¬ SyncAt (front ++ burst) position) :
    ((new codec).feed (front ++ burst)).2.head? =
      readBurst codec ((burst.drop syncBits).dropWhile (· == Int8.minValue)) := by
  have hbits : phyPrefixBits = syncBits + lengthBitsRepeated := rfl
  have hlength := h.length
  obtain ⟨seen, hheader⟩ := feed_to_header codec (by omega) h.sync hfirst
  conv_lhs => rw [← List.take_append_drop syncBits burst, ← List.append_assoc,
    feed_append_of_quiet hheader]
  exact head_feed_sentinel seen _

/-- A complete burst whose header does not start with the sentinel value yields what the aligned
decoder returns, and nothing else if its length is possible. -/
theorem feed_burst (h : Complete burst)
    (hfirst : ∀ position < front.length, ¬ SyncAt (front ++ burst) position)
    (hhead : (burst.drop syncBits).head? ≠ some Int8.minValue)
    (hgood : ¬ badCodedLength (announcedLength (burst.drop syncBits))) :
    (new codec).feed (front ++ burst) = (new codec, [codec.decodeAligned burst]) := by
  have hbits : phyPrefixBits = syncBits + lengthBitsRepeated := rfl
  have hlength := h.length
  have htotal := h.coded.resolve_left hgood
  have hread := read_burst_complete codec h
  obtain ⟨seen, hheader⟩ := feed_to_header codec (by omega) h.sync hfirst
  have hheaderLength : ((burst.drop syncBits).take lengthBitsRepeated).length =
      lengthBitsRepeated := by
    rw [List.length_take, List.length_drop]
    omega
  have hhead' : ((burst.drop syncBits).take lengthBitsRepeated).head? ≠ some Int8.minValue := by
    cases hrest : burst.drop syncBits with
    | nil => simp
    | cons first rest => rwa [hrest] at hhead
  have hannounced : ((burst.drop syncBits).drop lengthBitsRepeated).length =
      announcedLength (burst.drop syncBits) := by
    rw [List.length_drop, List.length_drop]
    omega
  rw [readBurst, if_neg (by rw [List.length_drop]; omega), if_neg hgood,
    if_neg (by rw [List.length_drop]; omega), List.take_of_length_le (by omega)] at hread
  conv_lhs => rw [← List.take_append_drop syncBits burst, ← List.append_assoc,
    feed_append_of_quiet hheader, ← List.take_append_drop lengthBitsRepeated (burst.drop syncBits)]
  rw [feed_whole seen hheaderLength hhead' (hannounced ▸ hgood) hannounced.symm,
    Option.some.inj hread]

/-- Values that do not start with a sentinel are kept. -/
theorem drop_while_eq_self {llrs : List Int8} (h : llrs.head? ≠ some Int8.minValue) :
    llrs.dropWhile (· == Int8.minValue) = llrs := by
  cases llrs with
  | nil => rfl
  | cons llr llrs => exact List.dropWhile_cons_of_neg (by simpa using h)

/-- Values that start with a sentinel become fewer. -/
theorem drop_while_length_lt {llrs : List Int8} (h : llrs.head? = some Int8.minValue) :
    (llrs.dropWhile (· == Int8.minValue)).length < llrs.length := by
  cases llrs with
  | nil => cases h
  | cons llr llrs =>
      rw [List.dropWhile_cons_of_pos (by simpa using h)]
      exact Nat.lt_succ_of_le (List.dropWhile_suffix _).length_le

/-- The deframer yields the aligned decoder's result exactly when the length header does not start
with the value that the deframer uses as a sentinel, or when both what follows the sync word and
what is left of it without the leading sentinel values are malformed. -/
theorem agrees_with_aligned_iff (h : Complete burst)
    (hfirst : ∀ position < front.length, ¬ SyncAt (front ++ burst) position) :
    Agrees ((new codec).feed (front ++ burst)).2 (codec.decodeAligned burst) ↔
      (burst.drop syncBits).head? ≠ some Int8.minValue ∨
        (Malformed (burst.drop syncBits) ∧
          Malformed ((burst.drop syncBits).dropWhile (· == Int8.minValue))) := by
  have hbits : phyPrefixBits = syncBits + lengthBitsRepeated := rfl
  have hread := read_burst_complete codec h
  have hstream := head_feed_burst codec h hfirst
  have hmalformed := read_burst_error_iff codec (burst.drop syncBits)
  have hmalformed' := read_burst_error_iff codec
    ((burst.drop syncBits).dropWhile (· == Int8.minValue))
  cases hresult : codec.decodeAligned burst with
  | error error =>
      rw [hresult] at hread
      have hburst : Malformed (burst.drop syncBits) := hmalformed.mp ⟨error, hread⟩
      rw [Agrees, hstream, hmalformed']
      constructor
      · exact fun hrest => Or.inr ⟨hburst, hrest⟩
      · rintro (hhead | ⟨-, hrest⟩)
        · rwa [drop_while_eq_self hhead]
        · exact hrest
  | ok frame =>
      rw [hresult] at hread
      have hnot : ¬ Malformed (burst.drop syncBits) := fun hburst => by
        obtain ⟨error, herror⟩ := hmalformed.mpr hburst
        rw [hread] at herror
        cases herror
      have hgood : ¬ badCodedLength (announcedLength (burst.drop syncBits)) := fun hbad =>
        hnot ⟨by rw [List.length_drop]; have := h.length; omega, Or.inl hbad⟩
      obtain ⟨-, hannounced⟩ := length_of_read_burst codec hread
      rw [Agrees]
      constructor
      · intro honly
        rw [honly] at hstream
        refine Or.inl fun hhead => ?_
        -- the shifted reading announces the same length, but fewer LLRs are left
        obtain ⟨hfits, hannounced'⟩ := length_of_read_burst codec hstream.symm
        have hshorter := drop_while_length_lt hhead
        have htotal := h.coded.resolve_left hgood
        rw [List.length_drop] at hshorter
        omega
      · rintro (hhead | ⟨hburst, -⟩)
        · rw [feed_burst codec h hfirst hhead hgood, hresult]
        · exact absurd hburst hnot

/-- The burst of a zero byte with LLRs of magnitude 90, but for the first one of its header. -/
def zeroByteBurst (first : Int8) : List Int8 :=
  syncWordBits.map (llrOf 90) ++
    first :: ((triples (lengthBits 28)).tail ++ List.replicate 28 false).map (llrOf 90)

/-- A codec with 17 columns. -/
def zeroByteCodec : BurstCodec := ⟨17, by decide, by decide⟩

/-- The theorem at the burst of a zero byte. -/
theorem agrees_with_aligned_iff_zero_byte :
    Complete (zeroByteBurst (-127)) ∧
      Agrees ((new zeroByteCodec).feed ([-80, 80, -80, 80] ++ zeroByteBurst (-127))).2
      (zeroByteCodec.decodeAligned (zeroByteBurst (-127))) := by
  have hcomplete : Complete (zeroByteBurst (-127)) :=
    ⟨by decide, by decide, Or.inr (by decide)⟩
  have hfirst : ∀ position < ([-80, 80, -80, 80] : List Int8).length,
      ¬ SyncAt ([-80, 80, -80, 80] ++ zeroByteBurst (-127)) position := by
    decide
  have hhead : ((zeroByteBurst (-127)).drop syncBits).head? ≠ some Int8.minValue := by
    decide
  rw [agrees_with_aligned_iff zeroByteCodec hcomplete hfirst]
  exact And.intro hcomplete (Or.inl hhead)

/-- With `i8::MIN` at the head of the length header, the burst yields nothing, although it decodes
aligned. -/
theorem sentinel_header_yields_nothing :
    Complete (zeroByteBurst (-128)) ∧
      ((new zeroByteCodec).feed (zeroByteBurst (-128))).2 = [] ∧
      ∃ frame, zeroByteCodec.decodeAligned (zeroByteBurst (-128)) =
        .ok frame ∧ ¬ Agrees ((new zeroByteCodec).feed (zeroByteBurst (-128))).2
          (.ok frame) := by
  have hcomplete : Complete (zeroByteBurst (-128)) :=
    ⟨by decide, by decide, Or.inr (by decide)⟩
  have hnothing : ((new zeroByteCodec).feed (zeroByteBurst (-128))).2 = [] := by
    decide +kernel
  have haccepted : AcceptedLength (announcedLength ((zeroByteBurst (-128)).drop syncBits)) :=
    ⟨by decide, by decide, by decide, by decide⟩
  obtain ⟨frame, hframe⟩ := decode_aligned_accepted zeroByteCodec hcomplete haccepted
  refine ⟨hcomplete, hnothing, frame, hframe, ?_⟩
  rw [hnothing]
  exact List.cons_ne_nil _ _ ∘ Eq.symm

end SoftBurstReceiver

end LatentMesh.AirRadio
