import LatentMesh.AirC.AtMostOnce
import LatentMesh.AirC.ErrorDetection
import LatentMesh.AirRadio.Receiver
import LatentMesh.Lib.Stutter

/-!
# Receivers on a noisy link

A receiver that hears corrupted frames among the frames it is sent does what it would do without
them (`noise_transparent`): it delivers the same messages in the same order and ends in the same
state. The C receiver counts the corrupted frames, and the Rust receiver goes back to listening.
-/

namespace LatentMesh.AirC

open LatentMesh.Lib LatentMesh.AirCore LatentMesh.AirRadio

/-- What a corruption made of a frame that the decoders accept. -/
def CorruptedCopy (received : List UInt8) : Prop :=
  ∃ sent frame, SparseRadioFrame.decode sent = .ok frame ∧ Corruption sent received

/-! ## The C receiver -/

/-- A receiver that has counted more rejected frames. -/
def rejectMore (rx : LmAirRx) (count : Nat) : LmAirRx :=
  { rx with stats := { rx.stats with
      framesRejected := rx.stats.framesRejected + UInt32.ofNat count } }

/-- `lm_air_rx_ingest_wire` with what it passes to the receive callback. -/
def wireStep (rx : LmAirRx) (call : WireCall) : LmAirRx × Option LmAirDelivery :=
  ((lmAirRxIngestWire call.1 rx call.2).1, (lmAirRxIngestWire call.1 rx call.2).2.2)

/-- The count of rejected frames does not matter to a commit. -/
theorem commit_replay_reject_more (rx : LmAirRx) (count : Nat) (streamId sequence : UInt16) :
    commitReplay (rejectMore rx count) streamId sequence =
      rejectMore (commitReplay rx streamId sequence) count := by
  have hfind : findReplay (rejectMore rx count) streamId = findReplay rx streamId := rfl
  unfold commitReplay
  rw [hfind]
  cases findReplay rx streamId with
  | none => rfl
  | some i => rfl

/-- The count of rejected frames does not matter to the search for a slot. -/
theorem find_or_allocate_slot_reject_more (rx : LmAirRx) (count : Nat) (frame : LmAirFrame) :
    findOrAllocateSlot (rejectMore rx count) frame =
      (rejectMore (findOrAllocateSlot rx frame).1 count, (findOrAllocateSlot rx frame).2) := by
  unfold findOrAllocateSlot
  dsimp only [rejectMore]
  cases firstIndex fun i => (rx.slots.get i).used &&
    (rx.slots.get i).streamId == frame.streamId && (rx.slots.get i).sequence == frame.sequence with
  | none => rfl
  | some i => rfl

/-- The count of rejected frames does not matter to a delivery. -/
theorem deliver_slot_reject_more (callbacks : LmAirRxCallbacks) (rx : LmAirRx) (count : Nat)
    (slot : LmAirReassemblySlot) (outerFlags : UInt8) :
    deliverSlot callbacks (rejectMore rx count) slot outerFlags =
      (rejectMore (deliverSlot callbacks rx slot outerFlags).1 count,
        (deliverSlot callbacks rx slot outerFlags).2) := by
  unfold deliverSlot
  cases slotMessage callbacks slot outerFlags with
  | error answer =>
      obtain ⟨status, counted⟩ := answer
      cases counted <;> rfl
  | ok message => simp only [commit_replay_reject_more]; rfl

/-- The count of rejected frames does not matter to the ingestion of a frame. -/
theorem ingest_frame_reject_more (callbacks : LmAirRxCallbacks) (rx : LmAirRx) (count : Nat)
    (frame : LmAirFrame) :
    ingestFrame callbacks (rejectMore rx count) frame =
      (rejectMore (ingestFrame callbacks rx frame).1 count,
        (ingestFrame callbacks rx frame).2) := by
  have hreplay : isReplay (rejectMore rx count) frame.streamId frame.sequence =
      isReplay rx frame.streamId frame.sequence := rfl
  unfold ingestFrame
  rw [hreplay, find_or_allocate_slot_reject_more]
  by_cases hseen : isReplay rx frame.streamId frame.sequence = true
  · rw [if_pos hseen, if_pos hseen]
    rfl
  rw [if_neg hseen, if_neg hseen]
  generalize findOrAllocateSlot rx frame = found
  obtain ⟨rx', i⟩ := found
  have hslot : (rejectMore rx' count).slots.get i = rx'.slots.get i := rfl
  have hclock : (rejectMore rx' count).clock = rx'.clock := rfl
  dsimp only
  rw [hslot, hclock]
  split_ifs with hdiffers hhas hmore
  · rfl
  · rfl
  · rfl
  · let slot := (rx'.slots.get i).store frame (rx'.clock + 1)
    let stored : LmAirRx := { rx' with
      clock := rx'.clock + 1
      slots := rx'.slots.set i slot i.isLt
      stats := { rx'.stats with framesAccepted := rx'.stats.framesAccepted + 1 } }
    exact congrArg (fun result : LmAirRx × LmAirStatus × Option LmAirDelivery =>
      ({ result.1 with slots := result.1.slots.set i .zero i.isLt }, result.2))
      (deliver_slot_reject_more callbacks stored count slot frame.flags)

/-- The count of rejected frames does not matter to the ingestion of a wire. -/
theorem ingest_wire_reject_more (callbacks : LmAirRxCallbacks) (rx : LmAirRx) (count : Nat)
    (wire : List UInt8) :
    lmAirRxIngestWire callbacks (rejectMore rx count) wire =
      (rejectMore (lmAirRxIngestWire callbacks rx wire).1 count,
        (lmAirRxIngestWire callbacks rx wire).2) := by
  have hcount (rx : LmAirRx) : countRejected (rejectMore rx count) =
      rejectMore (countRejected rx) count := by
    simp only [countRejected, rejectMore, LmAirRx.mk.injEq, LmAirRxStats.mk.injEq, true_and,
      and_true]
    ac_rfl
  cases hdecode : (lmAirFrameDecode wire).2 with
  | none => rw [ingest_wire_of_reject hdecode, ingest_wire_of_reject hdecode, hcount]
  | some frame =>
      rw [ingest_wire_of_decode hdecode, ingest_wire_of_decode hdecode, ingestDecoded,
        ingestDecoded, ingest_frame_reject_more]
      obtain ⟨rx', status, delivery⟩ := ingestFrame callbacks rx frame
      dsimp only
      split_ifs with herror
      · rw [hcount]
      · rfl

/-- Two C receivers that differ in how many frames they rejected. -/
def SameBut (count : Nat) (rx other : LmAirRx) : Prop := rx = rejectMore other count

/-- A corrupted copy changes nothing but the count of rejected frames. -/
theorem wire_step_transparent :
    Transparent wireStep SameBut (fun call => CorruptedCopy call.2) where
  agree := by
    rintro count rx other call rfl
    rw [SameBut, wireStep, wireStep, ingest_wire_reject_more]
    exact ⟨rfl, rfl⟩
  silent := by
    rintro count rx other call ⟨sent, frame, hsent, hcorrupted⟩ rfl
    have hrefused := (corrupted_refused hsent hcorrupted).2
    rw [SameBut, wireStep, ingest_wire_of_reject hrefused]
    refine ⟨?_, rfl⟩
    simp only [countRejected, rejectMore, LmAirRx.mk.injEq, LmAirRxStats.mk.injEq, true_and,
      and_true, UInt32.ofNat_add]
    ac_rfl

/-! ## The Rust receiver -/

/-- A call of `ingest_frame_bytes` or of `ingest_frame_bytes_verified`. -/
abbrev BytesCall := List UInt8 × Option EnvelopeVerifier

/-- The call with the message that it returns. -/
def bytesStep (receiver : AirReceiver) (call : BytesCall) :
    AirReceiver × Option ReceivedMessage :=
  let (next, result) := receiver.ingestFrameBytes call.1 call.2
  (next, result.toOption.join)

/-- Two Rust receivers that differ in their state word. -/
def SameButState (_count : Nat) (receiver other : AirReceiver) : Prop :=
  { receiver with state := .listening } = { other with state := .listening }

/-- A corrupted copy changes nothing of the receiver. -/
theorem bytes_step_transparent :
    Transparent bytesStep SameButState (fun call => CorruptedCopy call.1) where
  agree := by
    rintro count receiver other call hsame
    rw [bytesStep, bytesStep, AirReceiver.ingestFrameBytes, AirReceiver.ingestFrameBytes]
    cases SparseRadioFrame.decode call.1 with
    | error error => exact ⟨hsame, rfl⟩
    | ok frame =>
        -- `ingest_frame_inner` goes back to listening before it looks at anything
        have hlistening (start : AirReceiver) : start.ingestFrameInner frame call.2 =
            AirReceiver.ingestFrameInner { start with state := .listening } frame call.2 := rfl
        have hinner : receiver.ingestFrameInner frame call.2 =
            other.ingestFrameInner frame call.2 := by
          rw [hlistening, hlistening other, hsame]
        dsimp only
        rw [hinner]
        exact ⟨rfl, rfl⟩
  silent := by
    rintro count receiver other call ⟨sent, frame, hsent, hcorrupted⟩ hsame
    have hrefused := (corrupted_refused hsent hcorrupted).1
    rw [bytesStep, AirReceiver.ingestFrameBytes]
    cases hdecode : SparseRadioFrame.decode call.1 with
    | error error => exact ⟨hsame, rfl⟩
    | ok received => exact absurd hdecode (hrefused received)

/-! ## Runs -/

/-- Corrupted copies of frames, heard by a receiver at any place of any run, change neither what it
delivers nor the state it ends in, up to the count of rejected frames in C and the state word in
Rust. -/
theorem noise_transparent :
    (∀ (calls : List (WireCall × Bool)) (rx : LmAirRx),
      (∀ call ∈ calls, call.2 = true → CorruptedCopy call.1.2) →
        runOutputs wireStep rx (calls.map Prod.fst) = runOutputs wireStep rx (unmarked calls) ∧
        runState wireStep rx (calls.map Prod.fst) =
          rejectMore (runState wireStep rx (unmarked calls)) (calls.countP Prod.snd)) ∧
    ∀ (calls : List (BytesCall × Bool)) (receiver : AirReceiver),
      (∀ call ∈ calls, call.2 = true → CorruptedCopy call.1.1) →
        runOutputs bytesStep receiver (calls.map Prod.fst) =
          runOutputs bytesStep receiver (unmarked calls) ∧
        { runState bytesStep receiver (calls.map Prod.fst) with state := .listening } =
          { runState bytesStep receiver (unmarked calls) with state := .listening } := by
  constructor
  · intro calls rx hnoise
    have hsame : SameBut 0 rx rx := by simp [SameBut, rejectMore]
    obtain ⟨hstate, houtputs⟩ := wire_step_transparent.run hnoise hsame
    rw [Nat.zero_add] at hstate
    exact ⟨houtputs, hstate⟩
  · intro calls receiver hnoise
    have hsame : SameButState 0 receiver receiver := rfl
    obtain ⟨hstate, houtputs⟩ := bytes_step_transparent.run hnoise hsame
    exact ⟨houtputs, hstate⟩

/-- The flipped copy of a frame in front of the frame. -/
theorem noise_transparent_flipped :
    runOutputs wireStep lmAirRxInit
        [(⟨none, fun _ => .ok⟩, flippedWire), (⟨none, fun _ => .ok⟩, SparseRadioFrame.sampleWire)] =
      runOutputs wireStep lmAirRxInit [(⟨none, fun _ => .ok⟩, SparseRadioFrame.sampleWire)] :=
  (noise_transparent.1
    [((⟨none, fun _ => .ok⟩, flippedWire), true),
      ((⟨none, fun _ => .ok⟩, SparseRadioFrame.sampleWire), false)] lmAirRxInit (by
    intro call hcall hmark
    rcases List.mem_pair.mp hcall with rfl | rfl
    · exact ⟨_, _, sample_wire_decodes, flipped_wire_corruption⟩
    · cases hmark)).1

end LatentMesh.AirC
