import Mathlib.Data.Rat.Floor
import LatentMesh.Lib.Bytes
import LatentMesh.Lib.Guards
import LatentMesh.Lib.Ranking
import LatentMesh.Reasoning.Compat

/-!
# The sparse residual codec

`SparseTopKInt8Codec` of `compat.rs` over exact numbers. How a number is written as the four bytes
of an `f32` is a parameter, and nothing is assumed about it. The count of kept components is written
in 16 bits and not checked, so that the round trip needs less than `2 ^ 16` of them
(`SparseTopKInt8Codec.round_trip_iff`).
-/

namespace LatentMesh.Reasoning

open LatentMesh.Lib

/-- `SparseTopKInt8Codec { k }`. -/
structure SparseTopKInt8Codec where
  k : Nat
  deriving DecidableEq, Repr

/-! ## The code -/

/-- The components with their indices. -/
def enumerate (delta : List ℚ) : List (Nat × ℚ) := delta.mapIdx Prod.mk

/-- The comparison of the ranking: descending magnitude, then ascending index. -/
def rankedLe (first second : Nat × ℚ) : Bool :=
  decide (|second.2| < |first.2|) ||
    (decide (|first.2| = |second.2|) && decide (first.1 ≤ second.1))

/-- The greatest absolute value. -/
def maxAbs (delta : List ℚ) : ℚ := delta.foldl (fun acc value => max acc |value|) 0

/-- The scale of the levels. -/
def scaleOf (delta : List ℚ) : ℚ := if 0 < maxAbs delta then maxAbs delta / 127 else 1

/-- `f32::round`: to the nearest integer, half way cases away from zero. -/
def roundAway (value : ℚ) : ℤ := if 0 ≤ value then ⌊value + 1 / 2⌋ else ⌈value - 1 / 2⌉

/-- The level of a value. -/
def quantize (scale value : ℚ) : Int8 :=
  Int8.ofInt (max (-127) (min 127 (roundAway (value / scale))))

/-- The bytes of one kept component. -/
def entryBytes (scale : ℚ) (entry : Nat × ℚ) : List UInt8 :=
  u32Be (UInt32.ofNat entry.1) ++ [(quantize scale entry.2).toUInt8]

namespace SparseTopKInt8Codec

/-- The kept components, in ascending order of their indices. -/
def ranked (self : SparseTopKInt8Codec) (delta : List ℚ) : List (Nat × ℚ) :=
  (((enumerate delta).mergeSort rankedLe).take (min self.k delta.length)).mergeSort
    fun first second => decide (first.1 ≤ second.1)

variable (toBits : ℚ → UInt32) (ofBits : UInt32 → ℚ)

/-- `SparseTopKInt8Codec::encode`. -/
def encode (self : SparseTopKInt8Codec) (delta : List ℚ) : Except CompatError (List UInt8) :=
  if delta = [] then .error .emptyInput
  else if 2 ^ 32 - 1 < delta.length then .error .tooManyComponents
  else
    let scale := scaleOf delta
    .ok (u16Be (UInt16.ofNat (self.ranked delta).length) ++ u32Be (UInt32.ofNat delta.length) ++
      u32Be (toBits scale) ++ (self.ranked delta).flatMap (entryBytes scale))

/-- The loop of `decode` over the entries. -/
def decodeEntries (scale : ℚ) (encoded : List UInt8) (outputLen : Nat) :
    Nat → Nat → List ℚ → Except CompatError (List ℚ)
  | 0, _, out => .ok out
  | count + 1, cursor, out =>
      let index := (u32OfBe [encoded.getD cursor 0, encoded.getD (cursor + 1) 0,
        encoded.getD (cursor + 2) 0, encoded.getD (cursor + 3) 0]).toNat
      let raw := (encoded.getD (cursor + 4) 0).toInt8
      if outputLen ≤ index then .error .lengthMismatch
      else
        decodeEntries scale encoded outputLen count (cursor + 5)
          (out.set index ((raw.toInt : ℚ) * scale))

/-- The checked arithmetic does not overflow: the count is below `2 ^ 16`. -/
def decode (encoded : List UInt8) (outputLen : Nat) : Except CompatError (List ℚ) :=
  if encoded.length < 10 then .error .truncatedPayload
  else
    let k := (u16OfBe [encoded.getD 0 0, encoded.getD 1 0]).toNat
    let declaredLen := (u32OfBe [encoded.getD 2 0, encoded.getD 3 0, encoded.getD 4 0,
      encoded.getD 5 0]).toNat
    if declaredLen ≠ outputLen then .error .lengthMismatch
    else
      let scale := ofBits (u32OfBe [encoded.getD 6 0, encoded.getD 7 0, encoded.getD 8 0,
        encoded.getD 9 0])
      if encoded.length ≠ 10 + k * 5 then .error .truncatedPayload
      else decodeEntries scale encoded outputLen k 10 (List.replicate outputLen 0)

/-! ## The round trip -/

/-- The first component has a larger magnitude, or the same magnitude and a lower index. -/
def outranks (first second : Nat × ℚ) : Bool :=
  decide (|second.2| < |first.2|) ||
    (decide (|first.2| = |second.2|) && decide (first.1 < second.1))

/-- How many components outrank one. -/
def rank (delta : List ℚ) (index : Nat) (value : ℚ) : Nat :=
  (enumerate delta).countP fun other => outranks other (index, value)

/-- Encoding and decoding succeed, and give the quantum times the stored scale for the components
of largest magnitude and zero for the others. -/
def RoundTrips (self : SparseTopKInt8Codec) (delta : List ℚ) : Prop :=
  ∃ encoded out, self.encode toBits delta = .ok encoded ∧
    decode ofBits encoded delta.length = .ok out ∧ out.length = delta.length ∧
    ∀ index value, delta[index]? = some value →
      out[index]? = some (if rank delta index value < min self.k delta.length then
        ((quantize (scaleOf delta) value).toInt : ℚ) * ofBits (toBits (scaleOf delta)) else 0)

variable {self : SparseTopKInt8Codec} {delta : List ℚ} {toBits : ℚ → UInt32} {ofBits : UInt32 → ℚ}

/-! ### The ranking -/

/-- The enumerated values are those of the delta at their indices. -/
theorem mem_enumerate {index : Nat} {value : ℚ} :
    (index, value) ∈ enumerate delta ↔ delta[index]? = some value := by
  rw [enumerate, List.mem_mapIdx]
  constructor
  · rintro ⟨position, hposition, heq⟩
    obtain ⟨rfl, rfl⟩ := Prod.mk.inj heq
    exact List.getElem?_eq_getElem hposition
  · intro h
    obtain ⟨hindex, rfl⟩ := List.getElem?_eq_some_iff.mp h
    exact ⟨index, hindex, rfl⟩

/-- Every index is enumerated once. -/
theorem enumerate_indices (delta : List ℚ) :
    (enumerate delta).map Prod.fst = List.range delta.length := by
  apply List.ext_getElem
  · simp [enumerate]
  · intro index _ _
    simp [enumerate]

/-- Of two values not both outrank the other. -/
theorem outranks_asymm (first second : Nat × ℚ) (h : outranks first second = true) :
    outranks second first = false := by
  simp only [outranks, Bool.or_eq_true, Bool.and_eq_true, decide_eq_true_eq] at h
  simp only [outranks, Bool.or_eq_false_iff, Bool.and_eq_false_iff, decide_eq_false_iff_not, not_lt]
  rcases h with hlarger | ⟨hsame, hlower⟩
  · exact ⟨le_of_lt hlarger, Or.inl (ne_of_lt hlarger)⟩
  · exact ⟨le_of_eq hsame.symm, Or.inr (le_of_lt hlower)⟩

/-- The order of the ranking is transitive. -/
theorem ranked_le_trans (first second third : Nat × ℚ) (h : rankedLe first second = true)
    (hnext : rankedLe second third = true) : rankedLe first third = true := by
  simp only [rankedLe, Bool.or_eq_true, Bool.and_eq_true, decide_eq_true_eq] at h hnext ⊢
  rcases h with hlarger | ⟨hsame, hlower⟩
  · rcases hnext with hlarger' | ⟨hsame', -⟩
    · exact Or.inl (lt_trans hlarger' hlarger)
    · exact Or.inl (hsame' ▸ hlarger)
  · rcases hnext with hlarger' | ⟨hsame', hlower'⟩
    · exact Or.inl (hsame.symm ▸ hlarger')
    · exact Or.inr ⟨hsame.trans hsame', le_trans hlower hlower'⟩

/-- The order of the ranking is total. -/
theorem ranked_le_total (first second : Nat × ℚ) :
    (rankedLe first second || rankedLe second first) = true := by
  simp only [rankedLe, Bool.or_eq_true, Bool.and_eq_true, decide_eq_true_eq]
  rcases lt_trichotomy |first.2| |second.2| with hsmaller | hsame | hlarger
  · exact Or.inr (Or.inl hsmaller)
  · exact (le_total first.1 second.1).imp (fun h => Or.inr ⟨hsame, h⟩)
      fun h => Or.inr ⟨hsame.symm, h⟩
  · exact Or.inl (Or.inl hlarger)

/-- Components of different indices are ranked strictly. -/
theorem sorted_outranks (delta : List ℚ) :
    ((enumerate delta).mergeSort rankedLe).Pairwise fun first second =>
      outranks first second = true := by
  have hsorted := List.pairwise_mergeSort ranked_le_trans ranked_le_total (enumerate delta)
  have hdistinct : ((enumerate delta).mergeSort rankedLe).Pairwise fun first second =>
      first.1 ≠ second.1 := by
    rw [← List.pairwise_map (f := Prod.fst) (R := (· ≠ ·))]
    refine ((List.mergeSort_perm (enumerate delta) rankedLe).map Prod.fst).nodup_iff.mpr ?_
    rw [enumerate_indices]
    exact List.nodup_range
  refine (hsorted.and hdistinct).imp ?_
  rintro first second ⟨hle, hne⟩
  simp only [rankedLe, outranks, Bool.or_eq_true, Bool.and_eq_true, decide_eq_true_eq] at hle ⊢
  exact hle.imp_right fun h => ⟨h.1, lt_of_le_of_ne h.2 hne⟩

/-- The kept components are those that few components outrank. -/
theorem mem_ranked {index : Nat} {value : ℚ} (h : delta[index]? = some value) :
    (index, value) ∈ self.ranked delta ↔
      rank delta index value < min self.k delta.length := by
  have hmem : (index, value) ∈ (enumerate delta).mergeSort rankedLe :=
    List.mem_mergeSort.mpr (mem_enumerate.mpr h)
  rw [ranked, List.mem_mergeSort, mem_take_iff_rank_lt (sorted_outranks delta) outranks_asymm hmem,
    (List.mergeSort_perm (enumerate delta) rankedLe).countP_eq, rank]

/-- A ranked entry is one of the delta. -/
theorem of_mem_ranked {entry : Nat × ℚ} (h : entry ∈ self.ranked delta) :
    delta[entry.1]? = some entry.2 := by
  rw [ranked, List.mem_mergeSort] at h
  exact mem_enumerate.mp (List.mem_mergeSort.mp (List.mem_of_mem_take h))

/-- No more than `k` entries are ranked. -/
theorem ranked_length (self : SparseTopKInt8Codec) (delta : List ℚ) :
    (self.ranked delta).length = min self.k delta.length := by
  simp [ranked, enumerate]

/-- No index is ranked twice. -/
theorem ranked_distinct (self : SparseTopKInt8Codec) (delta : List ℚ) :
    ((self.ranked delta).map Prod.fst).Nodup := by
  refine ((List.mergeSort_perm _ _).map Prod.fst).nodup_iff.mpr ?_
  refine List.Nodup.sublist ((List.take_sublist _ _).map Prod.fst) ?_
  refine ((List.mergeSort_perm (enumerate delta) rankedLe).map Prod.fst).nodup_iff.mpr ?_
  rw [enumerate_indices]
  exact List.nodup_range

/-! ### The bytes -/

/-- The value that `decode` gives a kept component. -/
def decodedWrite (scale stored : ℚ) (entry : Nat × ℚ) : Nat × ℚ :=
  (entry.1, ((quantize scale entry.2).toInt : ℚ) * stored)

/-- A byte behind a position. -/
theorem get_d_of_drop {bytes tail : List UInt8} {cursor : Nat} (h : bytes.drop cursor = tail)
    (offset : Nat) : bytes.getD (cursor + offset) 0 = tail.getD offset 0 := by
  rw [← h, List.getD_eq_getElem?_getD, List.getD_eq_getElem?_getD, List.getElem?_drop]

/-- The loop writes every entry that the bytes hold. -/
theorem decode_entries {scale stored : ℚ} {encoded : List UInt8} {outputLen cursor : Nat}
    {entries : List (Nat × ℚ)} {out : List ℚ} (hlimit : outputLen < 2 ^ 32)
    (hentries : ∀ entry ∈ entries, entry.1 < outputLen)
    (hbytes : encoded.drop cursor = entries.flatMap (entryBytes scale)) :
    decodeEntries stored encoded outputLen entries.length cursor out =
      .ok (writeAll out (entries.map (decodedWrite scale stored))) := by
  induction entries generalizing cursor out with
  | nil => rfl
  | cons entry entries ih =>
      obtain ⟨hentry, hrest⟩ := List.forall_mem_cons.mp hentries
      rw [List.flatMap_cons] at hbytes
      have hindex : (UInt32.ofNat entry.1).toNat = entry.1 :=
        UInt32.toNat_ofNat_of_lt' (Nat.lt_trans hentry hlimit)
      have hword : [encoded.getD cursor 0, encoded.getD (cursor + 1) 0, encoded.getD (cursor + 2) 0,
          encoded.getD (cursor + 3) 0] = u32Be (UInt32.ofNat entry.1) := by
        rw [get_d_of_drop hbytes 1, get_d_of_drop hbytes 2, get_d_of_drop hbytes 3,
          ← Nat.add_zero cursor, get_d_of_drop hbytes 0]
        rfl
      have hraw : encoded.getD (cursor + 4) 0 = (quantize scale entry.2).toUInt8 := by
        rw [get_d_of_drop hbytes 4]
        rfl
      have hnext : encoded.drop (cursor + 5) = entries.flatMap (entryBytes scale) := by
        rw [← List.drop_drop, hbytes]
        rfl
      rw [List.length_cons, decodeEntries, hword, u32_of_be_u32_be, hindex, hraw,
        if_neg (Nat.not_le.mpr hentry), ih hrest hnext]
      simp [writeAll, decodedWrite]

/-- An entry has five bytes. -/
theorem entry_bytes_length (scale : ℚ) (entries : List (Nat × ℚ)) :
    (entries.flatMap (entryBytes scale)).length = entries.length * 5 := by
  induction entries with
  | nil => rfl
  | cons entry entries ih =>
      rw [List.flatMap_cons, List.length_append, ih, List.length_cons, Nat.succ_mul, Nat.add_comm]
      simp [entryBytes]

/-- The bytes of a vector that is not empty and not too long. -/
def encodedBytes (toBits : ℚ → UInt32) (self : SparseTopKInt8Codec) (delta : List ℚ) : List UInt8 :=
  u16Be (UInt16.ofNat (self.ranked delta).length) ++ u32Be (UInt32.ofNat delta.length) ++
    u32Be (toBits (scaleOf delta)) ++ (self.ranked delta).flatMap (entryBytes (scaleOf delta))

/-- A delta that is not empty or too long is encoded. -/
theorem encode_eq (hne : delta ≠ []) (hlimit : delta.length ≤ 2 ^ 32 - 1) :
    self.encode toBits delta = .ok (encodedBytes toBits self delta) := by
  rw [encode, if_neg hne, if_neg (Nat.not_lt.mpr hlimit), encodedBytes]

/-- What `decode` does with the bytes of a vector: the count that it reads is the written one modulo
`2 ^ 16`. -/
theorem decode_encoded (hlimit : delta.length ≤ 2 ^ 32 - 1) :
    decode ofBits (encodedBytes toBits self delta) delta.length =
      if min self.k delta.length < 2 ^ 16 then
        .ok (writeAll (List.replicate delta.length 0)
          ((self.ranked delta).map
            (decodedWrite (scaleOf delta) (ofBits (toBits (scaleOf delta))))))
      else .error .truncatedPayload := by
  have hlength : (encodedBytes toBits self delta).length =
      10 + (self.ranked delta).length * 5 := by
    rw [encodedBytes, List.length_append, entry_bytes_length]
    simp
  have hdeclared : (UInt32.ofNat delta.length).toNat = delta.length :=
    UInt32.toNat_ofNat_of_lt' (show delta.length < 2 ^ 32 by omega)
  have hcount : [(encodedBytes toBits self delta).getD 0 0,
      (encodedBytes toBits self delta).getD 1 0] =
        u16Be (UInt16.ofNat (self.ranked delta).length) := rfl
  have hlen : [(encodedBytes toBits self delta).getD 2 0,
      (encodedBytes toBits self delta).getD 3 0, (encodedBytes toBits self delta).getD 4 0,
      (encodedBytes toBits self delta).getD 5 0] = u32Be (UInt32.ofNat delta.length) := rfl
  have hscale : [(encodedBytes toBits self delta).getD 6 0,
      (encodedBytes toBits self delta).getD 7 0, (encodedBytes toBits self delta).getD 8 0,
      (encodedBytes toBits self delta).getD 9 0] = u32Be (toBits (scaleOf delta)) := rfl
  have hentries : (encodedBytes toBits self delta).drop 10 =
      (self.ranked delta).flatMap (entryBytes (scaleOf delta)) := rfl
  unfold decode
  rw [if_neg (by omega), hcount, hlen, hscale]
  simp only [u16_of_be_u16_be, u32_of_be_u32_be, hdeclared, UInt16.toNat_ofNat']
  rw [if_neg (not_not.mpr rfl), hlength, ranked_length]
  by_cases hfits : min self.k delta.length < 2 ^ 16
  · rw [if_pos hfits, Nat.mod_eq_of_lt hfits, if_neg (not_not.mpr rfl), ← ranked_length,
      decode_entries (by omega) ?_ hentries]
    intro entry hentry
    exact (List.getElem?_eq_some_iff.mp (of_mem_ranked hentry)).1
  · have hlost := Nat.mod_lt (min self.k delta.length) (show 0 < 2 ^ 16 by decide)
    rw [if_neg hfits, if_pos (by omega)]

/-- A vector round trips exactly when fewer than `2 ^ 16` of its components are kept. -/
theorem round_trip_iff (hne : delta ≠ []) (hlimit : delta.length ≤ 2 ^ 32 - 1) :
    self.RoundTrips toBits ofBits delta ↔ min self.k delta.length < 2 ^ 16 := by
  have hdecode := @decode_encoded self delta toBits ofBits hlimit
  constructor
  · rintro ⟨encoded, out, hencode, hout, -⟩
    rw [encode_eq hne hlimit] at hencode
    obtain rfl := Except.ok.inj hencode
    by_contra hlost
    rw [hdecode, if_neg hlost] at hout
    cases hout
  · intro hfits
    rw [if_pos hfits] at hdecode
    refine ⟨_, _, encode_eq hne hlimit, hdecode, by simp, ?_⟩
    intro index value hvalue
    obtain ⟨hindex, -⟩ := List.getElem?_eq_some_iff.mp hvalue
    by_cases hkept : rank delta index value < min self.k delta.length
    · have hmem := List.mem_map_of_mem
        (f := decodedWrite (scaleOf delta) (ofBits (toBits (scaleOf delta))))
        ((@mem_ranked self delta index value hvalue).mpr hkept)
      rw [if_pos hkept]
      refine write_all_get ?_ hmem (by simpa [decodedWrite] using hindex)
      rw [List.map_map]
      exact ranked_distinct self delta
    · rw [if_neg hkept, write_all_get_other, List.getElem?_replicate, if_pos hindex]
      rintro write hwrite rfl
      obtain ⟨entry, hentry, rfl⟩ := List.mem_map.mp hwrite
      -- the only component of that index is not kept
      have hsame := (of_mem_ranked hentry).symm.trans hvalue
      refine hkept ((@mem_ranked self delta _ value hvalue).mp ?_)
      rw [← Option.some.inj hsame]
      exact hentry

/-- The bits of `1 / 127`, which is the scale of a vector whose largest magnitude is 1. -/
def unitScaleBits : ℚ → UInt32 := fun _ => 0x3c010204

/-- The theorem at a tie of two values. -/
theorem round_trip_small :
    RoundTrips unitScaleBits (fun _ => 1 / 127) ⟨1⟩ [1, -1, 0] :=
  (round_trip_iff (by decide) (by decide)).mpr (by decide)

/-- A vector of `2 ^ 16` components, all of them kept: the written count is zero, and `decode`
refuses the bytes. -/
theorem full_count_lost :
    (∃ encoded, encode unitScaleBits ⟨65536⟩ (List.replicate 65536 1) = .ok encoded ∧
      decode (fun _ => 1 / 127) encoded 65536 = .error .truncatedPayload) ∧
    (RoundTrips unitScaleBits (fun _ => 1 / 127) ⟨65536⟩ (List.replicate 65536 1) ↔ False) := by
  have hlength : (List.replicate 65536 (1 : ℚ)).length = 65536 := List.length_replicate
  have hne : List.replicate 65536 (1 : ℚ) ≠ [] :=
    List.ne_nil_of_length_pos (by rw [hlength]; decide)
  have hlimit : (List.replicate 65536 (1 : ℚ)).length ≤ 2 ^ 32 - 1 := by
    rw [hlength]
    decide
  have hdecode := @decode_encoded ⟨65536⟩ _ unitScaleBits (fun _ => 1 / 127) hlimit
  rw [hlength, if_neg (by decide)] at hdecode
  refine ⟨⟨_, encode_eq hne hlimit, hdecode⟩, ?_⟩
  rw [iff_false]
  rintro ⟨encoded, out, hencode, hout, -⟩
  rw [encode_eq hne hlimit] at hencode
  obtain rfl := Except.ok.inj hencode
  rw [hlength, hdecode] at hout
  cases hout

end SparseTopKInt8Codec

end LatentMesh.Reasoning
