import LatentMesh.AirC.Rx

/-!
# The compaction loop

`deliver_slot` moves the fragments of a slot to the start of the array that holds them. What it
wrote always ends before the first fragment that it has not copied (`Compacted.step`), so every
iteration reads its fragment as it arrived, and the fragments are joined in order
(`LmAirReassemblySlot.Fits.compaction`).
-/

namespace LatentMesh.AirC

open LatentMesh.Lib

/-- The bytes of a fragment of a slot. -/
def LmAirReassemblySlot.fragmentBytes (slot : LmAirReassemblySlot) (index : Nat) : List UInt8 :=
  readAt slot.fragments (index * lmAirMaxFramePayload) (slot.fragmentLen.getD index 0).toNat

/-- The first fragments of a slot, joined. -/
def LmAirReassemblySlot.joined (slot : LmAirReassemblySlot) (count : Nat) : List UInt8 :=
  (List.range count).flatMap slot.fragmentBytes

/-- The fragments of a slot are as many and as long as its array has room for. -/
structure LmAirReassemblySlot.Fits (slot : LmAirReassemblySlot) : Prop where
  count_le : slot.fragmentCount.toNat ≤ lmAirMaxFragments
  length_le : ∀ index < slot.fragmentCount.toNat,
    (slot.fragmentLen.getD index 0).toNat ≤ lmAirMaxFramePayload

variable {slot : LmAirReassemblySlot} {fragmentLen : List UInt8} {done total : Nat}
  {assembled : List UInt8}

/-- A run of the compaction loop, split. -/
theorem compact_fragments_append (first second : List Nat) (buffer : List UInt8) (start : Nat) :
    compactFragments fragmentLen (first ++ second) buffer start =
      (compactFragments fragmentLen first buffer start).bind fun (buffer, total) =>
        compactFragments fragmentLen second buffer total := by
  induction first generalizing buffer start with
  | nil => rfl
  | cons i rest ih =>
      rw [List.cons_append, compactFragments, compactFragments]
      dsimp only
      split
      · rfl
      · exact ih _ _

/-- One fragment more is joined at the end. -/
theorem joined_append (slot : LmAirReassemblySlot) (count : Nat) :
    slot.joined (count + 1) = slot.joined count ++ slot.fragmentBytes count := by
  rw [LmAirReassemblySlot.joined, LmAirReassemblySlot.joined, List.range_succ,
    List.flatMap_append, List.flatMap_singleton]

/-- A fragment that fits its place has its length. -/
theorem fragment_bytes_length (slot : LmAirReassemblySlot) {index : Nat}
    (hindex : index < lmAirMaxFragments)
    (hlength : (slot.fragmentLen.getD index 0).toNat ≤ lmAirMaxFramePayload) :
    (slot.fragmentBytes index).length = (slot.fragmentLen.getD index 0).toNat := by
  have hsize := slot.fragments_size
  rw [LmAirReassemblySlot.fragmentBytes, readAt, List.length_take, List.length_drop, hsize]
  simp only [lmAirMaxAssembledBytes, lmAirMaxFragments, lmAirMaxFramePayload] at hindex hlength ⊢
  omega

/-- The compaction loop after its first iterations: the fragments so far are joined at the start of
the array, no further than they reached before, and the others are where they were. -/
structure Compacted (slot : LmAirReassemblySlot) (done : Nat) (assembled : List UInt8)
    (total : Nat) : Prop where
  size : assembled.length = lmAirMaxAssembledBytes
  total_eq : total = (slot.joined done).length
  total_le : total ≤ done * lmAirMaxFramePayload
  joined : readAt assembled 0 total = slot.joined done
  uncopied : ∀ index, done ≤ index →
    readAt assembled (index * lmAirMaxFramePayload) lmAirMaxFramePayload =
      readAt slot.fragments (index * lmAirMaxFramePayload) lmAirMaxFramePayload

/-- Before the first iteration nothing has been moved. -/
theorem compacted_start (slot : LmAirReassemblySlot) : Compacted slot 0 slot.fragments 0 :=
  ⟨slot.fragments_size, rfl, Nat.zero_le _, rfl, fun _ _ => rfl⟩

/-- An iteration reads its fragment as it was, and writes no further than the fragment reaches. -/
theorem Compacted.step (h : Compacted slot done assembled total)
    (hdone : done < lmAirMaxFragments)
    (hlength : (slot.fragmentLen.getD done 0).toNat ≤ lmAirMaxFramePayload) :
    ∃ next, compactFragments slot.fragmentLen [done] assembled total =
        some (next, total + (slot.fragmentLen.getD done 0).toNat) ∧
      Compacted slot (done + 1) next (total + (slot.fragmentLen.getD done 0).toNat) := by
  have hbytes := fragment_bytes_length slot hdone hlength
  have hread : readAt assembled (done * lmAirMaxFramePayload)
      (slot.fragmentLen.getD done 0).toNat = slot.fragmentBytes done := by
    have htake : ∀ buffer : List UInt8, readAt buffer (done * lmAirMaxFramePayload)
        (slot.fragmentLen.getD done 0).toNat =
          (readAt buffer (done * lmAirMaxFramePayload) lmAirMaxFramePayload).take
            (slot.fragmentLen.getD done 0).toNat := fun buffer => by
      rw [readAt, readAt, List.take_take, Nat.min_eq_left hlength]
    rw [htake, h.uncopied done le_rfl, ← htake]
    rfl
  have hend : total + (slot.fragmentLen.getD done 0).toNat ≤ (done + 1) * lmAirMaxFramePayload := by
    have hle := h.total_le
    rw [Nat.succ_mul]
    omega
  have hwhole : (done + 1) * lmAirMaxFramePayload ≤ lmAirMaxAssembledBytes := by
    rw [lmAirMaxAssembledBytes, Nat.mul_comm]
    exact Nat.mul_le_mul_left _ hdone
  have hroom : total + (slot.fragmentBytes done).length ≤ assembled.length := by
    rw [hbytes, h.size]
    omega
  refine ⟨writeAt assembled total (slot.fragmentBytes done), ?_, ?_⟩
  · rw [compactFragments]
    dsimp only
    rw [if_neg (by omega), hread]
    rfl
  · refine ⟨(write_at_length ..).trans h.size, ?_, hend, ?_, fun index hindex => ?_⟩
    · rw [joined_append, List.length_append, hbytes, h.total_eq]
    · rw [joined_append, read_at_append, Nat.zero_add, ← hbytes, read_at_write_at hroom,
        read_at_write_at_beside hroom (Or.inl (by omega)), h.joined]
    · -- the fragments still to be copied lie behind what was written
      have hbehind : (done + 1) * lmAirMaxFramePayload ≤ index * lmAirMaxFramePayload :=
        Nat.mul_le_mul_right _ hindex
      rw [read_at_write_at_beside hroom (Or.inr (by omega))]
      exact h.uncopied index (by omega)

/-- The compaction loop of a slot, after any number of its iterations. -/
theorem LmAirReassemblySlot.Fits.compaction (h : slot.Fits)
    (hdone : done ≤ slot.fragmentCount.toNat) :
    ∃ assembled total, compactFragments slot.fragmentLen (List.range done) slot.fragments 0 =
        some (assembled, total) ∧ Compacted slot done assembled total := by
  induction done with
  | zero => exact ⟨slot.fragments, 0, rfl, compacted_start slot⟩
  | succ done ih =>
      obtain ⟨assembled, total, hrun, hcompacted⟩ := ih (by omega)
      obtain ⟨next, hstep, hnext⟩ := hcompacted.step (Nat.lt_of_lt_of_le hdone h.count_le)
        (h.length_le done hdone)
      refine ⟨next, _, ?_, hnext⟩
      rw [List.range_succ, compact_fragments_append, hrun]
      exact hstep

end LatentMesh.AirC
