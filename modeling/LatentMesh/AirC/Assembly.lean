import LatentMesh.AirC.Compaction
import LatentMesh.AirC.Ingest
import LatentMesh.AirC.Transfer

/-!
# Reassembly of a transfer

A slot holds fragments of a transfer (`Holds`): the bitmap says which, and they are where the
compaction looks for them. A frame of the transfer keeps this so (`Holds.store`), and a slot that
holds all fragments is delivered as the message of the transfer (`Holds.deliver`).
-/

namespace LatentMesh.AirC

open LatentMesh.Lib LatentMesh.AirCore

/-! ## The bitmap -/

/-- A bit of the bitmap as a power of two. -/
theorem one_shift32_to_nat {i : UInt8} (h : i.toNat < 32) :
    ((1 : UInt32) <<< i.toUInt32).toNat = 2 ^ i.toNat := by
  have hlt : 2 ^ i.toNat < 2 ^ 32 := Nat.pow_lt_pow_right (by decide) h
  rw [UInt32.toNat_shiftLeft, UInt8.toNat_toUInt32, Nat.mod_eq_of_lt h, UInt32.toNat_one,
    Nat.shiftLeft_eq, Nat.one_mul, Nat.mod_eq_of_lt hlt]

/-- A slot has received the fragment `index`. -/
def LmAirReassemblySlot.Has (slot : LmAirReassemblySlot) (index : Nat) : Prop :=
  slot.receivedBitmap.toNat.testBit index = true

/-- The receiver's test of a fragment looks at its bit. -/
theorem has_fragment_iff (slot : LmAirReassemblySlot) {frame : LmAirFrame}
    (h : frame.fragmentIndex.toNat < 32) :
    slot.HasFragment frame ↔ slot.Has frame.fragmentIndex.toNat := by
  rw [LmAirReassemblySlot.HasFragment, LmAirReassemblySlot.Has, Ne, ← UInt32.toNat_inj,
    UInt32.toNat_and, one_shift32_to_nat h, Nat.and_two_pow, UInt32.toNat_zero]
  cases slot.receivedBitmap.toNat.testBit frame.fragmentIndex.toNat <;> simp

/-- A stored frame sets the bit of its fragment. -/
theorem has_store_iff (slot : LmAirReassemblySlot) {frame : LmAirFrame}
    (h : frame.fragmentIndex.toNat < 32) (clock : UInt32) (index : Nat) :
    (slot.store frame clock).Has index ↔
      slot.Has index ∨ index = frame.fragmentIndex.toNat := by
  change (slot.receivedBitmap ||| 1 <<< frame.fragmentIndex.toUInt32).toNat.testBit index = true ↔ _
  rw [UInt32.toNat_or, one_shift32_to_nat h, Nat.testBit_or, Nat.testBit_two_pow, Bool.or_eq_true,
    decide_eq_true_eq, eq_comm (a := frame.fragmentIndex.toNat)]
  rfl

/-- The complete bitmap has a bit for every fragment. -/
theorem complete_mask_to_nat {count : UInt8} (h : count.toNat ≤ 32) :
    (completeMask count).toNat = 2 ^ count.toNat - 1 := by
  unfold completeMask
  by_cases hall : count = 32
  · rw [if_pos hall, hall]
    rfl
  · have hlt : count.toNat < 32 :=
      Nat.lt_of_le_of_ne h fun heq => hall (UInt8.toNat_inj.mp heq)
    have hpos := Nat.one_le_two_pow (n := count.toNat)
    rw [if_neg hall, UInt32.toNat_sub_of_le, one_shift32_to_nat hlt, UInt32.toNat_one]
    rw [UInt32.le_iff_toNat_le, one_shift32_to_nat hlt]
    exact hpos

/-- The complete bitmap has the bits of all fragments. -/
theorem eq_complete_mask_iff (bitmap : UInt32) {count : UInt8} (h : count.toNat ≤ 32) :
    bitmap = completeMask count ↔
      ∀ index, bitmap.toNat.testBit index = true ↔ index < count.toNat := by
  rw [← UInt32.toNat_inj, complete_mask_to_nat h]
  constructor
  · intro hmask index
    rw [hmask, Nat.testBit_two_pow_sub_one, decide_eq_true_eq]
  · intro hbits
    refine Nat.eq_of_testBit_eq fun index => ?_
    rw [Bool.eq_iff_iff, Nat.testBit_two_pow_sub_one, decide_eq_true_eq]
    exact hbits index

section

variable (slot : LmAirReassemblySlot) {transfer : Transfer} {index : Nat}

/-- The index of a frame of a transfer is within the bitmap. -/
theorem frame_index_lt (h : index < transfer.count) :
    (transfer.frame index).fragmentIndex.toNat < 32 := by
  change (UInt8.ofNat index).toNat < 32
  rw [transfer.index_to_nat h]
  exact Nat.lt_of_lt_of_le h transfer.count_le_max

/-- The receiver's test of a frame of a transfer looks at its bit. -/
theorem has_frame_iff (h : index < transfer.count) :
    slot.HasFragment (transfer.frame index) ↔ slot.Has index := by
  have hnat : (transfer.frame index).fragmentIndex.toNat = index := transfer.index_to_nat h
  rw [has_fragment_iff slot (frame_index_lt h), hnat]

/-- A stored frame of a transfer sets its bit and no other. -/
theorem has_stored_iff (h : index < transfer.count) (clock : UInt32) (k : Nat) :
    (slot.store (transfer.frame index) clock).Has k ↔ slot.Has k ∨ k = index := by
  have hnat : (transfer.frame index).fragmentIndex.toNat = index := transfer.index_to_nat h
  rw [has_store_iff slot (frame_index_lt h), hnat]

/-- The bitmap is complete when the slot has all fragments of the transfer. -/
theorem complete_iff : slot.receivedBitmap = completeMask (transfer.frame index).fragmentCount ↔
    ∀ k, slot.Has k ↔ k < transfer.count := by
  have hcount : (transfer.frame index).fragmentCount.toNat = transfer.count :=
    transfer.count_to_nat
  rw [eq_complete_mask_iff _ (by rw [hcount]; exact transfer.count_le_max), hcount]
  rfl

end

/-! ## The fragments of a slot -/

/-- A slot holds the fragment `index` of a transfer, under its metadata. -/
structure LmAirReassemblySlot.HoldsFragment (slot : LmAirReassemblySlot) (transfer : Transfer)
    (index : Nat) : Prop where
  collects : slot.Collects (transfer.frame 0)
  metadata : slot.SameMetadata (transfer.frame 0)
  index_lt : index < transfer.count
  length : slot.fragmentLen.getD index 0 = UInt8.ofNat (transfer.fragment index).length
  fragment : readAt slot.fragments (index * lmAirMaxFramePayload) (transfer.fragment index).length =
    transfer.fragment index

section

variable {slot : LmAirReassemblySlot} {transfer other : Transfer} {index position : Nat}

/-- A stored frame of a transfer enters the length of its fragment. -/
theorem store_fragment_len (hindex : index < transfer.count) (clock : UInt32) :
    (slot.store (transfer.frame index) clock).fragmentLen =
      slot.fragmentLen.set index (UInt8.ofNat (transfer.fragment index).length) := by
  have hnat : (transfer.frame index).fragmentIndex.toNat = index := transfer.index_to_nat hindex
  change slot.fragmentLen.set (transfer.frame index).fragmentIndex.toNat _ = _
  rw [hnat]
  rfl

/-- A stored frame of a transfer enters the bytes of its fragment. -/
theorem store_fragments (hindex : index < transfer.count) (clock : UInt32) :
    (slot.store (transfer.frame index) clock).fragments =
      writeAt slot.fragments (index * lmAirMaxFramePayload) (transfer.fragment index) := by
  have hnat : (transfer.frame index).fragmentIndex.toNat = index := transfer.index_to_nat hindex
  change writeAt slot.fragments ((transfer.frame index).fragmentIndex.toNat * _)
    ((transfer.frame index).payload.take (transfer.frame index).payloadLen.toNat) = _
  rw [hnat, transfer.frame_payload]

/-- A slot has room for every fragment. -/
theorem fragment_room (slot : LmAirReassemblySlot) (hindex : index < transfer.count) :
    index * lmAirMaxFramePayload + (transfer.fragment index).length ≤ slot.fragments.length := by
  have hcount := transfer.count_le_max
  have hle := transfer.fragment_length_le index
  have hsize : slot.fragments.length = lmAirMaxFramePayload * lmAirMaxFragments :=
    slot.fragments_size
  simp only [lmAirMaxFragments, lmAirMaxFramePayload] at hcount hle hsize ⊢
  omega

/-- A frame of a transfer adds its fragment. -/
theorem holds_fragment_store (hcollects : slot.Collects (transfer.frame 0))
    (hmetadata : slot.SameMetadata (transfer.frame 0)) (hindex : index < transfer.count)
    (clock : UInt32) :
    (slot.store (transfer.frame index) clock).HoldsFragment transfer index := by
  have hcount := transfer.count_le_max
  refine ⟨hcollects, hmetadata, hindex, ?_, ?_⟩
  · rw [store_fragment_len hindex, List.getD_eq_getElem?_getD, List.getElem?_set, if_pos rfl,
      if_pos (by rw [slot.fragment_len_size]; omega)]
    rfl
  · rw [store_fragments hindex]
    exact read_at_write_at (fragment_room slot hindex)

/-- A frame leaves the other fragments where they are. -/
theorem LmAirReassemblySlot.HoldsFragment.store (h : slot.HoldsFragment transfer index)
    (hposition : position < other.count) (hne : index ≠ position) (clock : UInt32) :
    (slot.store (other.frame position) clock).HoldsFragment transfer index := by
  have hle := transfer.fragment_length_le index
  have hle' := other.fragment_length_le position
  have hbeside : index * lmAirMaxFramePayload + (transfer.fragment index).length ≤
      position * lmAirMaxFramePayload ∨
      position * lmAirMaxFramePayload + (other.fragment position).length ≤
        index * lmAirMaxFramePayload := by
    rw [lmAirMaxFramePayload] at hle hle' ⊢
    omega
  refine ⟨h.collects, h.metadata, h.index_lt, ?_, ?_⟩
  · rw [store_fragment_len hposition, List.getD_eq_getElem?_getD, List.getElem?_set,
      if_neg (Ne.symm hne), ← List.getD_eq_getElem?_getD]
    exact h.length
  · rw [store_fragments hposition, read_at_write_at_beside (fragment_room slot hposition) hbeside]
    exact h.fragment

/-- The metadata of a slot says how many fragments there are. -/
theorem LmAirReassemblySlot.HoldsFragment.count (h : slot.HoldsFragment transfer index) :
    slot.fragmentCount.toNat = transfer.count := by
  rw [h.metadata.1]
  exact transfer.count_to_nat

/-- The compaction loop reads the fragment. -/
theorem LmAirReassemblySlot.HoldsFragment.bytes (h : slot.HoldsFragment transfer index) :
    slot.fragmentBytes index = transfer.fragment index := by
  rw [LmAirReassemblySlot.fragmentBytes, h.length, transfer.payload_len_to_nat]
  exact h.fragment

/-- A slot that holds fragments of transfers has room for them. -/
theorem fits_of_holds {sources : Nat → Transfer} (hpos : 0 < slot.fragmentCount.toNat)
    (hholds : ∀ k < slot.fragmentCount.toNat, slot.HoldsFragment (sources k) k) : slot.Fits := by
  refine ⟨?_, fun k hk => ?_⟩
  · rw [(hholds 0 hpos).count]
    exact (sources 0).count_le_max
  · rw [(hholds k hk).length, (sources k).payload_len_to_nat]
    exact (sources k).fragment_length_le k

/-- A slot whose fragments join to the envelope of a message assembles it. -/
theorem assembles_of_join {sources : Nat → Transfer} {message : LmAirMessage}
    {signature : List UInt8} {whole : Nat}
    (hholds : ∀ k < slot.fragmentCount.toNat, slot.HoldsFragment (sources k) k)
    (hwhole : whole < slot.fragmentCount.toNat) (hmessage : (sources whole).message = message)
    (hjoin : (List.range slot.fragmentCount.toNat).flatMap (fun k => (sources k).fragment k) =
      envelopeBytes message signature) : slot.Assembles message signature := by
  obtain ⟨-, -, -, hclass, hpriority, htag⟩ := (hholds whole hwhole).metadata
  have hpos : 0 < slot.fragmentCount.toNat := Nat.zero_lt_of_lt hwhole
  have hjoined : slot.joined slot.fragmentCount.toNat = envelopeBytes message signature := by
    rw [← hjoin]
    exact List.flatMap_congr fun k hk => (hholds k (List.mem_range.mp hk)).bytes
  obtain ⟨assembled, total, hcompact, hcompacted⟩ := (fits_of_holds hpos hholds).compaction le_rfl
  obtain rfl := hcompacted.total_eq
  have hread := hcompacted.joined
  rw [hjoined] at hcompact hread
  subst hmessage
  exact ⟨⟨assembled, hcompact, hread⟩, hclass, hpriority, htag⟩

end

/-! ## Slots that hold a transfer -/

/-- The fragments of a slot are fragments of a transfer. -/
structure LmAirReassemblySlot.Holds (slot : LmAirReassemblySlot) (transfer : Transfer) : Prop where
  collects : slot.Collects (transfer.frame 0)
  metadata : slot.SameMetadata (transfer.frame 0)
  index_lt : ∀ index, slot.Has index → index < transfer.count
  length : ∀ index, slot.Has index →
    slot.fragmentLen.getD index 0 = UInt8.ofNat (transfer.fragment index).length
  fragment : ∀ index, slot.Has index →
    readAt slot.fragments (index * lmAirMaxFramePayload) (transfer.fragment index).length =
      transfer.fragment index

/-- A slot that is set up has no fragment yet. -/
theorem not_has_allocated (frame : LmAirFrame) (clock : UInt32) (index : Nat) :
    ¬ (LmAirReassemblySlot.allocated frame clock).Has index := by
  change ¬ (0 : UInt32).toNat.testBit index = true
  rw [UInt32.toNat_zero, Nat.zero_testBit]
  decide

/-- A slot that is set up for a frame of a transfer holds none of its fragments. -/
theorem holds_allocated (transfer : Transfer) (index : Nat) (clock : UInt32) :
    (LmAirReassemblySlot.allocated (transfer.frame index) clock).Holds transfer :=
  ⟨⟨rfl, rfl, rfl⟩, ⟨rfl, rfl, rfl, rfl, rfl, rfl⟩,
    fun i h => absurd h (not_has_allocated _ _ i), fun i h => absurd h (not_has_allocated _ _ i),
    fun i h => absurd h (not_has_allocated _ _ i)⟩

namespace LmAirReassemblySlot.Holds

variable {slot : LmAirReassemblySlot} {transfer : Transfer}

/-- A slot that holds a transfer holds each fragment that it has. -/
theorem holds_fragment (h : slot.Holds transfer) {index : Nat} (hindex : slot.Has index) :
    slot.HoldsFragment transfer index :=
  ⟨h.collects, h.metadata, h.index_lt index hindex, h.length index hindex, h.fragment index hindex⟩

/-- A frame of the transfer adds its fragment. -/
theorem store (h : slot.Holds transfer) {index : Nat} (hindex : index < transfer.count)
    (clock : UInt32) : (slot.store (transfer.frame index) clock).Holds transfer := by
  have hall : ∀ i, (slot.store (transfer.frame index) clock).Has i →
      (slot.store (transfer.frame index) clock).HoldsFragment transfer i := by
    intro i hi
    by_cases heq : i = index
    · rw [heq]
      exact holds_fragment_store h.collects h.metadata hindex clock
    · have hold := ((has_stored_iff slot hindex clock i).mp hi).resolve_right heq
      exact (h.holds_fragment hold).store hindex heq clock
  exact ⟨h.collects, h.metadata, fun i hi => (hall i hi).index_lt, fun i hi => (hall i hi).length,
    fun i hi => (hall i hi).fragment⟩

/-- A slot that holds all fragments assembles the envelope. -/
theorem assembles (h : slot.Holds transfer) (hall : ∀ index < transfer.count, slot.Has index) :
    slot.Assembles transfer.message transfer.signature := by
  have hcount := (h.holds_fragment (hall 0 transfer.count_pos)).count
  have hpos := transfer.count_pos
  refine @assembles_of_join slot (fun _ => transfer) _ _ 0
    (fun k hk => h.holds_fragment (hall k (by omega))) (by omega) rfl ?_
  rw [hcount]
  exact transfer.fragments_flatten

end LmAirReassemblySlot.Holds

/-- The frames of a transfer say that it is signed when its message is. -/
theorem Transfer.auth_flag_iff (transfer : Transfer) :
    transfer.flags &&& lmAirFlagAuthenticated ≠ 0 ↔ transfer.message.authenticated ≠ 0 := by
  unfold Transfer.flags
  by_cases hflag : transfer.message.authenticated = 0
  · rw [if_neg (not_not.mpr hflag)]
    refine ⟨fun h => absurd ?_ h, fun h => absurd hflag h⟩
    split <;> rfl
  · rw [if_pos hflag]
    refine ⟨fun _ => hflag, fun _ => ?_⟩
    split <;> decide

/-- A slot that holds all fragments is read as the message of the transfer, unless its signature is
refused. -/
theorem LmAirReassemblySlot.Holds.message {slot : LmAirReassemblySlot} {transfer : Transfer}
    (h : slot.Holds transfer) (hall : ∀ index < transfer.count, slot.Has index)
    (callbacks : LmAirRxCallbacks) :
    slotMessage callbacks slot transfer.flags =
      if transfer.message.authenticated ≠ 0 ∧
          callbacks.refuses transfer.message transfer.signature = true then
        .error (.errAuth, true)
      else .ok transfer.message.delivered :=
  slot_message_envelope callbacks (h.assembles hall) transfer.signature_size transfer.auth_flag_iff

end LatentMesh.AirC
