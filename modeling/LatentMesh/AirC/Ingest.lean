import LatentMesh.AirC.ReplayAgreement

/-!
# What an ingest call does

The outcomes of `ingestFrame` (`FrameOutcome`) in terms of the reassembly slots, the replay table
and what is delivered, and the outcomes of `lmAirRxIngestWire` and `lmAirRxIngestBlock` in terms of
the frame that is decoded. What a call does to the replay table (`ReplayEffect`) is nothing, or the
commit of the sequence number of the message that it delivers, which the table did not hold.
-/

namespace LatentMesh.AirC

open LatentMesh.Lib

/-! ## The slot of a frame -/

/-- A slot is in use for the stream and the sequence number of a frame. -/
def LmAirReassemblySlot.Collects (slot : LmAirReassemblySlot) (frame : LmAirFrame) : Prop :=
  slot.used = true ∧ slot.streamId = frame.streamId ∧ slot.sequence = frame.sequence

/-- The receiver with the slot of a frame: the slot that collects it, or a slot set up for it. -/
inductive SlotOutcome (rx : LmAirRx) (frame : LmAirFrame) :
    LmAirRx → Fin lmAirRxReassemblySlots → Prop where
  | found {i : Fin lmAirRxReassemblySlots} (hslot : rx.slots[i].Collects frame) :
      SlotOutcome rx frame rx i
  | allocated {rx' : LmAirRx} {i : Fin lmAirRxReassemblySlots} {clock : UInt32}
      (hnone : ∀ j : Fin lmAirRxReassemblySlots, ¬ rx.slots[j].Collects frame)
      (hslots : rx'.slots = rx.slots.set i (.allocated frame clock))
      (hreplay : rx'.replay = rx.replay) : SlotOutcome rx frame rx' i

/-- `find_or_allocate_slot` finds the slot of the frame or sets one up. -/
theorem find_or_allocate_slot_outcome (rx : LmAirRx) (frame : LmAirFrame) :
    SlotOutcome rx frame (findOrAllocateSlot rx frame).1 (findOrAllocateSlot rx frame).2 := by
  have hcollects : ∀ i : Fin lmAirRxReassemblySlots, (rx.slots[i].used &&
      rx.slots[i].streamId == frame.streamId && rx.slots[i].sequence == frame.sequence) = true ↔
      rx.slots[i].Collects frame := fun i => by
    rw [Bool.and_eq_true, Bool.and_eq_true, beq_iff_eq, beq_iff_eq, and_assoc]
    rfl
  unfold findOrAllocateSlot
  split
  · rename_i i hfind
    exact .found ((hcollects i).mp (first_index_spec hfind))
  · rename_i hfind
    refine .allocated (fun j hj => ?_) rfl rfl
    have hnone := first_index_eq_none_iff.mp hfind j
    exact absurd (hnone.symm.trans ((hcollects j).mpr hj)) Bool.false_ne_true

namespace SlotOutcome

variable {rx rx' : LmAirRx} {frame : LmAirFrame} {i : Fin lmAirRxReassemblySlots}

/-- Finding a slot leaves the replay table as it is. -/
theorem replay (h : SlotOutcome rx frame rx' i) : rx'.replay = rx.replay := by
  cases h with
  | found hslot => rfl
  | allocated hnone hslots hreplay => exact hreplay

/-- The slot that is found collects the fragments of the frame's message. -/
theorem collects (h : SlotOutcome rx frame rx' i) : rx'.slots[i].Collects frame := by
  cases h with
  | found hslot => exact hslot
  | allocated hnone hslots hreplay =>
      rw [hslots, vector_set_get, if_pos rfl]
      exact ⟨rfl, rfl, rfl⟩

/-- Finding a slot leaves the other slots as they are. -/
theorem other (h : SlotOutcome rx frame rx' i) {j : Fin lmAirRxReassemblySlots} (hj : j ≠ i) :
    rx'.slots[j] = rx.slots[j] := by
  cases h with
  | found hslot => rfl
  | allocated hnone hslots hreplay => rw [hslots, vector_set_get, if_neg hj]

end SlotOutcome

/-! ## The outcome of a frame -/

/-- A slot and a frame have the same metadata. -/
def LmAirReassemblySlot.SameMetadata (slot : LmAirReassemblySlot) (frame : LmAirFrame) : Prop :=
  slot.fragmentCount = frame.fragmentCount ∧ slot.profile = frame.profile ∧
    slot.flags = frame.flags ∧ slot.classId = frame.classId ∧ slot.priority = frame.priority ∧
    slot.stateTag = frame.stateTag

/-- A slot has the fragment of a frame. -/
def LmAirReassemblySlot.HasFragment (slot : LmAirReassemblySlot) (frame : LmAirFrame) : Prop :=
  slot.receivedBitmap &&& (1 <<< frame.fragmentIndex.toUInt32) ≠ 0

/-- The outcomes of `ingest_frame`: the receiver afterwards, the status and the delivery. -/
inductive FrameOutcome (callbacks : LmAirRxCallbacks) (rx : LmAirRx) (frame : LmAirFrame)
    (rx' : LmAirRx) : LmAirStatus → Option LmAirDelivery → Prop where
  | replay (hseen : isReplay rx frame.streamId frame.sequence = true)
      (hslots : rx'.slots = rx.slots) (hreplay : rx'.replay = rx.replay) :
      FrameOutcome callbacks rx frame rx' .errReplay none
  | mismatch {middle : LmAirRx} {i : Fin lmAirRxReassemblySlots}
      (hfresh : isReplay rx frame.streamId frame.sequence = false)
      (hslot : SlotOutcome rx frame middle i) (hdiffers : ¬ middle.slots[i].SameMetadata frame)
      (hslots : rx'.slots = middle.slots) (hreplay : rx'.replay = rx.replay) :
      FrameOutcome callbacks rx frame rx' .errFormat none
  | duplicate {middle : LmAirRx} {i : Fin lmAirRxReassemblySlots}
      (hfresh : isReplay rx frame.streamId frame.sequence = false)
      (hslot : SlotOutcome rx frame middle i) (hsame : middle.slots[i].SameMetadata frame)
      (hhas : middle.slots[i].HasFragment frame)
      (hslots : rx'.slots = middle.slots) (hreplay : rx'.replay = rx.replay) :
      FrameOutcome callbacks rx frame rx' .errDuplicate none
  | stored {middle : LmAirRx} {i : Fin lmAirRxReassemblySlots} {clock : UInt32}
      (hfresh : isReplay rx frame.streamId frame.sequence = false)
      (hslot : SlotOutcome rx frame middle i) (hsame : middle.slots[i].SameMetadata frame)
      (hnew : ¬ middle.slots[i].HasFragment frame)
      (hmore : (middle.slots[i].store frame clock).receivedBitmap ≠
        completeMask frame.fragmentCount)
      (hslots : rx'.slots = middle.slots.set i (middle.slots[i].store frame clock))
      (hreplay : rx'.replay = rx.replay) :
      FrameOutcome callbacks rx frame rx' .more none
  | completed {middle before : LmAirRx} {i : Fin lmAirRxReassemblySlots} {clock : UInt32}
      (hfresh : isReplay rx frame.streamId frame.sequence = false)
      (hslot : SlotOutcome rx frame middle i) (hsame : middle.slots[i].SameMetadata frame)
      (hnew : ¬ middle.slots[i].HasFragment frame)
      (hcomplete : (middle.slots[i].store frame clock).receivedBitmap =
        completeMask frame.fragmentCount)
      (hbefore : before.replay = rx.replay)
      (hslots : rx'.slots = middle.slots.set i .zero)
      (hreplay : rx'.replay =
        (deliverSlot callbacks before (middle.slots[i].store frame clock) frame.flags).1.replay) :
      FrameOutcome callbacks rx frame rx'
        (deliverSlot callbacks before (middle.slots[i].store frame clock) frame.flags).2.1
        (deliverSlot callbacks before (middle.slots[i].store frame clock) frame.flags).2.2

/-- Delivering a slot leaves the slots as they are. -/
theorem deliver_slot_slots (callbacks : LmAirRxCallbacks) (rx : LmAirRx)
    (slot : LmAirReassemblySlot) (outerFlags : UInt8) :
    (deliverSlot callbacks rx slot outerFlags).1.slots = rx.slots := by
  have hcommit : ∀ streamId sequence, (commitReplay rx streamId sequence).slots = rx.slots := by
    intro streamId sequence
    unfold commitReplay
    split <;> rfl
  unfold deliverSlot
  split
  · split <;> rfl
  · exact hcommit _ _

/-- The comparison of the receiver holds when the metadata differ in some field. -/
theorem same_metadata_iff {slot : LmAirReassemblySlot} {frame : LmAirFrame} :
    (slot.fragmentCount ≠ frame.fragmentCount ∨ slot.profile ≠ frame.profile ∨
        slot.flags ≠ frame.flags ∨ slot.classId ≠ frame.classId ∨
        slot.priority ≠ frame.priority ∨ slot.stateTag ≠ frame.stateTag) ↔
      ¬ slot.SameMetadata frame := by
  simp only [LmAirReassemblySlot.SameMetadata, not_and_or, Ne]

/-- What `ingest_frame` does with a frame. -/
theorem ingest_frame_outcome (callbacks : LmAirRxCallbacks) (rx : LmAirRx) (frame : LmAirFrame) :
    FrameOutcome callbacks rx frame (ingestFrame callbacks rx frame).1
      (ingestFrame callbacks rx frame).2.1 (ingestFrame callbacks rx frame).2.2 := by
  have hslot := find_or_allocate_slot_outcome rx frame
  unfold ingestFrame
  generalize findOrAllocateSlot rx frame = allocated at hslot ⊢
  obtain ⟨middle, i⟩ := allocated
  dsimp only at hslot ⊢
  by_cases hseen : isReplay rx frame.streamId frame.sequence = true
  · rw [if_pos hseen]
    exact .replay hseen rfl rfl
  · have hfresh := Bool.not_eq_true _ ▸ hseen
    rw [if_neg hseen]
    by_cases hsame : (middle.slots.get i).SameMetadata frame
    · rw [if_neg fun hdiffers => same_metadata_iff.mp hdiffers hsame]
      split
      · rename_i hhas
        exact .duplicate hfresh hslot hsame hhas rfl hslot.replay
      · rename_i hnew
        split
        · rename_i hmore
          exact .stored hfresh hslot hsame hnew hmore rfl hslot.replay
        · rename_i hcomplete
          refine .completed hfresh hslot hsame hnew (not_not.mp hcomplete) hslot.replay ?_ rfl
          dsimp only
          rw [deliver_slot_slots]
          exact Vector.set_set ..
    · rw [if_pos (same_metadata_iff.mpr hsame)]
      exact .mismatch hfresh hslot hsame rfl hslot.replay

/-- The counters make no difference to an outcome. -/
theorem FrameOutcome.congr {callbacks : LmAirRxCallbacks} {rx rx' other : LmAirRx}
    {frame : LmAirFrame} {status : LmAirStatus} {delivery : Option LmAirDelivery}
    (h : FrameOutcome callbacks rx frame rx' status delivery) (hslots : other.slots = rx'.slots)
    (hreplay : other.replay = rx'.replay) :
    FrameOutcome callbacks rx frame other status delivery := by
  cases h with
  | replay hseen hs hr => exact .replay hseen (hslots.trans hs) (hreplay.trans hr)
  | mismatch hfresh hslot hdiffers hs hr =>
      exact .mismatch hfresh hslot hdiffers (hslots.trans hs) (hreplay.trans hr)
  | duplicate hfresh hslot hsame hhas hs hr =>
      exact .duplicate hfresh hslot hsame hhas (hslots.trans hs) (hreplay.trans hr)
  | stored hfresh hslot hsame hnew hmore hs hr =>
      exact .stored hfresh hslot hsame hnew hmore (hslots.trans hs) (hreplay.trans hr)
  | completed hfresh hslot hsame hnew hcomplete hbefore hs hr =>
      exact .completed hfresh hslot hsame hnew hcomplete hbefore (hslots.trans hs)
        (hreplay.trans hr)

/-- What a call does with a decoded frame. -/
theorem ingest_decoded_outcome (callbacks : LmAirRxCallbacks) (rx : LmAirRx)
    (frame : LmAirFrame) :
    FrameOutcome callbacks rx frame (ingestDecoded callbacks rx frame).1
      (ingestDecoded callbacks rx frame).2.1 (ingestDecoded callbacks rx frame).2.2 := by
  refine (ingest_frame_outcome callbacks rx frame).congr ?_ ?_
  · dsimp only [ingestDecoded]
    split <;> rfl
  · dsimp only [ingestDecoded]
    split <;> rfl

/-! ## The replay table -/

/-- What a call does to the replay table. -/
inductive ReplayEffect (rx rx' : LmAirRx) : Option LmAirDelivery → Prop where
  | quiet (hreplay : rx'.replay = rx.replay) : ReplayEffect rx rx' none
  | deliver {before : LmAirRx} {delivery : LmAirDelivery} (hbefore : before.replay = rx.replay)
      (hfresh : isReplay rx delivery.streamId delivery.sequence = false)
      (hreplay : rx'.replay =
        (commitReplay before delivery.streamId delivery.sequence).replay) :
      ReplayEffect rx rx' (some delivery)

/-- A slot that is delivered is committed to the replay table. -/
theorem deliver_slot_replay (callbacks : LmAirRxCallbacks) (rx : LmAirRx)
    (slot : LmAirReassemblySlot) (outerFlags : UInt8) :
    ((deliverSlot callbacks rx slot outerFlags).2.2 = none ∧
      (deliverSlot callbacks rx slot outerFlags).1.replay = rx.replay) ∨
    ∃ message, (deliverSlot callbacks rx slot outerFlags).2.2 =
        some ⟨slot.streamId, slot.sequence, message⟩ ∧
      (deliverSlot callbacks rx slot outerFlags).1.replay =
        (commitReplay rx slot.streamId slot.sequence).replay := by
  unfold deliverSlot
  split
  · rename_i counted _
    cases counted with
    | true => exact Or.inl ⟨rfl, rfl⟩
    | false => exact Or.inl ⟨rfl, rfl⟩
  · exact Or.inr ⟨_, rfl, rfl⟩

namespace FrameOutcome

variable {callbacks : LmAirRxCallbacks} {rx rx' : LmAirRx} {frame : LmAirFrame}
  {status : LmAirStatus} {delivery : Option LmAirDelivery}

/-- A frame delivers the message of its own stream and sequence number, if any. -/
theorem replay_effect (h : FrameOutcome callbacks rx frame rx' status delivery) :
    ReplayEffect rx rx' delivery ∧ ∀ message, delivery = some message →
      message.streamId = frame.streamId ∧ message.sequence = frame.sequence := by
  cases h with
  | replay hseen hslots hreplay => exact ⟨.quiet hreplay, fun _ h => by cases h⟩
  | mismatch hfresh hslot hdiffers hslots hreplay => exact ⟨.quiet hreplay, fun _ h => by cases h⟩
  | duplicate hfresh hslot hsame hhas hslots hreplay =>
      exact ⟨.quiet hreplay, fun _ h => by cases h⟩
  | stored hfresh hslot hsame hnew hmore hslots hreplay =>
      exact ⟨.quiet hreplay, fun _ h => by cases h⟩
  | @completed middle before i clock hfresh hslot hsame hnew hcomplete hbefore hslots hreplay =>
      obtain ⟨_, hstream, hsequence⟩ := hslot.collects
      rcases deliver_slot_replay callbacks before (middle.slots[i].store frame clock) frame.flags
        with ⟨hnone, hkeep⟩ | ⟨message, hsome, hcommit⟩
      · rw [hnone]
        exact ⟨.quiet (hreplay.trans (hkeep.trans hbefore)), fun _ h => by cases h⟩
      · have hstream' : (middle.slots[i].store frame clock).streamId = frame.streamId := hstream
        have hsequence' : (middle.slots[i].store frame clock).sequence = frame.sequence := hsequence
        rw [hsome]
        rw [hstream', hsequence'] at hcommit ⊢
        refine ⟨.deliver hbefore hfresh (hreplay.trans hcommit), fun delivered h => ?_⟩
        cases h
        exact ⟨rfl, rfl⟩

end FrameOutcome

/-! ## The two ingest functions -/

/-- A wire that is decoded is ingested as its frame. -/
theorem ingest_wire_of_decode {wire : List UInt8} {frame : LmAirFrame}
    (h : (lmAirFrameDecode wire).2 = some frame) (callbacks : LmAirRxCallbacks) (rx : LmAirRx) :
    lmAirRxIngestWire callbacks rx wire = ingestDecoded callbacks rx frame := by
  unfold lmAirRxIngestWire
  generalize lmAirFrameDecode wire = decoded at h ⊢
  obtain ⟨status, found⟩ := decoded
  cases h
  rfl

/-- A wire that is not decoded is counted and changes nothing else. -/
theorem ingest_wire_of_reject {wire : List UInt8} (h : (lmAirFrameDecode wire).2 = none)
    (callbacks : LmAirRxCallbacks) (rx : LmAirRx) :
    lmAirRxIngestWire callbacks rx wire =
      (countRejected rx, (lmAirFrameDecode wire).1, none) := by
  unfold lmAirRxIngestWire
  generalize lmAirFrameDecode wire = decoded at h ⊢
  obtain ⟨status, found⟩ := decoded
  cases h
  rfl

/-- A wire buffer delivers a message only of the stream and sequence number of its frame. -/
theorem ingest_wire_effect (callbacks : LmAirRxCallbacks) (rx : LmAirRx) (wire : List UInt8) :
    ReplayEffect rx (lmAirRxIngestWire callbacks rx wire).1
        (lmAirRxIngestWire callbacks rx wire).2.2 ∧
      ∀ delivery, (lmAirRxIngestWire callbacks rx wire).2.2 = some delivery →
        ∃ frame, (lmAirFrameDecode wire).2 = some frame ∧
          delivery.streamId = frame.streamId ∧ delivery.sequence = frame.sequence := by
  cases hdecode : (lmAirFrameDecode wire).2 with
  | none =>
      rw [ingest_wire_of_reject hdecode]
      exact ⟨.quiet rfl, fun _ h => by cases h⟩
  | some frame =>
      obtain ⟨heffect, hkey⟩ := (ingest_decoded_outcome callbacks rx frame).replay_effect
      rw [ingest_wire_of_decode hdecode]
      exact ⟨heffect, fun delivery h => ⟨frame, rfl, hkey delivery h⟩⟩

end LatentMesh.AirC
