import Mathlib.Data.List.Basic

/-!
# Chunks

A list cut into consecutive chunks of one size, the last one possibly shorter.
-/

namespace LatentMesh.Lib

variable {α : Type}

/-- Division rounding up. -/
def divCeil (dividend divisor : Nat) : Nat :=
  dividend / divisor + if dividend % divisor = 0 then 0 else 1

/-- The quotient rounded up is the least count whose multiple reaches the dividend. -/
theorem div_ceil_le_iff {dividend divisor count : Nat} (hdivisor : 0 < divisor) :
    divCeil dividend divisor ≤ count ↔ dividend ≤ count * divisor := by
  have hdivide := Nat.div_add_mod' dividend divisor
  unfold divCeil
  split
  · rename_i hexact
    rw [hexact, Nat.add_zero] at hdivide
    rw [Nat.add_zero, ← hdivide, Nat.mul_div_cancel _ hdivisor, Nat.mul_le_mul_right_iff hdivisor]
  · rename_i hrest
    rw [Nat.succ_le_iff, Nat.div_lt_iff_lt_mul hdivisor]
    refine ⟨Nat.le_of_lt, fun hle => Nat.lt_of_le_of_ne hle fun heq => hrest ?_⟩
    rw [heq, Nat.mul_mod_left]

/-- The chunks have room for all items. -/
theorem le_div_ceil_mul {length size : Nat} (hsize : 0 < size) :
    length ≤ divCeil length size * size :=
  (div_ceil_le_iff hsize).mp (Nat.le_refl _)

/-- The usual expression with a truncating division. -/
theorem div_ceil_eq {length size : Nat} (hsize : 0 < size) :
    (length + size - 1) / size = divCeil length size := by
  apply Nat.le_antisymm
  · rw [Nat.div_le_iff_le_mul_add_pred hsize, Nat.mul_comm]
    have hle := @le_div_ceil_mul length size hsize
    omega
  · rw [div_ceil_le_iff hsize]
    have hdivide := Nat.div_add_mod' (length + size - 1) size
    have hrest := Nat.mod_lt (length + size - 1) hsize
    omega

/-- A list with an item has a chunk. -/
theorem div_ceil_pos {length size : Nat} (hsize : 0 < size) (hlength : 0 < length) :
    0 < divCeil length size := by
  by_contra hzero
  have hle := (div_ceil_le_iff hsize).mp (Nat.le_of_not_lt hzero)
  omega

/-- Every chunk but those from the count on holds an item. -/
theorem mul_lt_of_lt_div_ceil {length size index : Nat} (hsize : 0 < size)
    (h : index < divCeil length size) : index * size < length := by
  by_contra hnot
  exact absurd ((div_ceil_le_iff hsize).mpr (Nat.le_of_not_lt hnot)) (Nat.not_le.mpr h)

/-- Equal chunks are not longer than those that they were counted with. -/
theorem div_ceil_div_ceil_le {length size : Nat} (hsize : 0 < size) (hlength : 0 < length) :
    divCeil length (divCeil length size) ≤ size := by
  rw [div_ceil_le_iff (div_ceil_pos hsize hlength), Nat.mul_comm]
  exact le_div_ceil_mul hsize

/-- None of the equal chunks is empty. -/
theorem pred_mul_div_ceil_lt {length size : Nat} (hsize : 0 < size) (hlength : 0 < length) :
    (divCeil length size - 1) * divCeil length (divCeil length size) < length := by
  have hpos := div_ceil_pos hsize hlength
  exact Nat.lt_of_le_of_lt (Nat.mul_le_mul_left _ (div_ceil_div_ceil_le hsize hlength))
    (mul_lt_of_lt_div_ceil hsize (Nat.sub_lt hpos Nat.one_pos))

/-- The items of one chunk. -/
def chunk (size : Nat) (items : List α) (index : Nat) : List α :=
  (items.drop (index * size)).take size

/-- A list cut into its chunks, in order. -/
def chunks (size : Nat) (items : List α) : List (List α) :=
  (List.range (divCeil items.length size)).map (chunk size items)

/-- A chunk is as long as the size and what is left allow. -/
@[simp] theorem chunk_length (size : Nat) (items : List α) (index : Nat) :
    (chunk size items index).length = min size (items.length - index * size) := by
  rw [chunk, List.length_take, List.length_drop]

/-- The number of chunks of a list. -/
@[simp] theorem chunks_length (size : Nat) (items : List α) :
    (chunks size items).length = divCeil items.length size := by
  rw [chunks, List.length_map, List.length_range]

/-- No chunk is longer than the size. -/
theorem length_le_of_mem_chunks {size : Nat} {items part : List α} (h : part ∈ chunks size items) :
    part.length ≤ size := by
  obtain ⟨index, -, rfl⟩ := List.mem_map.mp h
  rw [chunk_length]
  exact Nat.min_le_left _ _

/-- The first chunks join to a prefix. -/
theorem flat_map_chunk (size : Nat) (items : List α) (count : Nat) :
    (List.range count).flatMap (chunk size items) = items.take (count * size) := by
  induction count with
  | zero => simp
  | succ count ih =>
      rw [List.range_succ, List.flatMap_append, ih, List.flatMap_singleton, chunk, Nat.succ_mul,
        List.take_add]

/-- The chunks join to the list. -/
theorem flatten_chunks {size : Nat} (hsize : 0 < size) (items : List α) :
    (chunks size items).flatten = items := by
  rw [chunks, ← List.flatMap_def, flat_map_chunk]
  exact List.take_of_length_le (le_div_ceil_mul hsize)

/-! ## Chunks of several lists -/

/-- Chunks taken from lists of one length with one front join to a list with that front. -/
theorem flat_map_chunk_front {size length count : Nat} {items : Nat → List α} {front : List α}
    (hlength : ∀ i < count, (items i).length = length) (hfront : ∀ i < count, front <+: items i) :
    ((List.range count).flatMap fun i => chunk size (items i) i).length =
        min (count * size) length ∧
      ((List.range count).flatMap fun i => chunk size (items i) i).take front.length =
        front.take (count * size) := by
  induction count with
  | zero => simp
  | succ count ih =>
      obtain ⟨hjoined, htake⟩ := ih (fun i hi => hlength i (Nat.lt_succ_of_lt hi))
        fun i hi => hfront i (Nat.lt_succ_of_lt hi)
      obtain ⟨tail, htail⟩ := hfront count (Nat.lt_succ_self count)
      have hlast := hlength count (Nat.lt_succ_self count)
      have hle : front.length ≤ length := by
        rw [← hlast, ← htail, List.length_append]
        exact Nat.le_add_right _ _
      rw [List.range_succ, List.flatMap_append, List.flatMap_singleton, Nat.succ_mul]
      refine ⟨?_, ?_⟩
      · rw [List.length_append, hjoined, chunk_length, hlast]
        omega
      · rw [List.take_append, htake, hjoined]
        by_cases hinside : count * size < front.length
        · rw [Nat.min_eq_left (by omega), chunk, ← htail,
            List.drop_append_of_le_length (Nat.le_of_lt hinside), List.take_take, Nat.min_comm,
            ← List.take_take, List.take_left' (by rw [List.length_drop]), ← List.take_add]
        · rw [show front.length - min (count * size) length = 0 by omega, List.take_zero,
            List.append_nil, List.take_of_length_le (by omega), List.take_of_length_le (by omega)]

/-- One piece is taken from a source for every index. When two sources differ in one piece at most,
or agree on the pieces that one of them offers, then the pieces taken are those of one source. -/
theorem exists_single_source {β : Type} {count : Nat} (hcount : 0 < count)
    {pieces : Nat → Nat → β} {offered : Nat → Nat} (hoffered : ∀ i < count, i < offered i)
    (h : ∀ i < count, ∀ k < count, (∀ j < offered i, pieces i j = pieces k j) ∨
      (∀ j < offered k, pieces i j = pieces k j) ∨
      ∀ j l, pieces i j ≠ pieces k j → pieces i l ≠ pieces k l → j = l) :
    ∃ source < count, ∀ i < count, pieces i i = pieces source i := by
  obtain ⟨last, rfl⟩ : ∃ last, count = last + 1 := ⟨count - 1, by omega⟩
  have hlast := hoffered last (Nat.lt_succ_self last)
  -- the source of the last index offers all pieces
  have honce : ∀ i < last + 1, pieces i i ≠ pieces last i →
      ∀ j l, pieces i j ≠ pieces last j → pieces i l ≠ pieces last l → j = l := by
    intro i hi hne
    rcases h i hi last (Nat.lt_succ_self last) with hagree | hagree | honce
    · exact absurd (hagree i (hoffered i hi)) hne
    · exact absurd (hagree i (by omega)) hne
    · exact honce
  by_cases hall : ∀ i < last + 1, pieces i i = pieces last i
  · exact ⟨last, Nat.lt_succ_self last, hall⟩
  · rw [not_forall] at hall
    obtain ⟨other, hall⟩ := hall
    rw [Classical.not_imp] at hall
    obtain ⟨hother, hne⟩ := hall
    refine ⟨other, hother, fun i hi => ?_⟩
    by_contra hdiffer
    have hdistinct : i ≠ other := fun heq => hdiffer (heq ▸ rfl)
    have hi' : pieces other i = pieces last i := by
      by_contra hne'
      exact hdistinct (honce other hother hne i other hne' hne)
    have hother' : pieces i other = pieces last other := by
      by_contra hne'
      exact hdistinct (honce i hi (hi' ▸ hdiffer) i other (hi' ▸ hdiffer) hne')
    rcases h i hi other hother with hagree | hagree | honce'
    · exact hdiffer (hagree i (hoffered i hi))
    · exact hne ((hagree other (hoffered other hother)).symm.trans hother')
    · exact hdistinct (honce' i other hdiffer fun heq => hne (heq.symm.trans hother'))

end LatentMesh.Lib
