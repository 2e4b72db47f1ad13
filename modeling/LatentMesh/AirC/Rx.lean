import LatentMesh.AirC.Air
import LatentMesh.Lib.Buffer
import LatentMesh.Lib.Table

/-!
# The C receiver

The receiver of `air.c`: the replay table, the reassembly slots and the two ingest functions. A call
returns the receiver after it, its status, and the message that it passes to the receive callback
(`LmAirDelivery`). The scratch buffers of the receiver are cleared before they are written and hold
nothing across calls, so they are no part of its state.
-/

namespace LatentMesh.AirC

open LatentMesh.Lib

/-- `lm_air_reassembly_slot_t`. The fragments are one array, 240 bytes for each. -/
structure LmAirReassemblySlot where
  used : Bool
  streamId : UInt16
  sequence : UInt16
  profile : UInt8
  flags : UInt8
  fragmentCount : UInt8
  classId : UInt8
  priority : UInt8
  stateTag : UInt16
  receivedBitmap : UInt32
  age : UInt32
  fragmentLen : List UInt8
  fragments : List UInt8
  fragment_len_size : fragmentLen.length = lmAirMaxFragments
  fragments_size : fragments.length = lmAirMaxAssembledBytes
  deriving DecidableEq

/-- `memset(slot, 0, sizeof(*slot))`. -/
def LmAirReassemblySlot.zero : LmAirReassemblySlot :=
  { used := false, streamId := 0, sequence := 0, profile := 0, flags := 0, fragmentCount := 0
    classId := 0, priority := 0, stateTag := 0, receivedBitmap := 0, age := 0
    fragmentLen := List.replicate lmAirMaxFragments 0
    fragments := List.replicate lmAirMaxAssembledBytes 0
    fragment_len_size := List.length_replicate
    fragments_size := List.length_replicate }

/-- `lm_air_replay_entry_t`. -/
structure LmAirReplayEntry where
  used : Bool
  streamId : UInt16
  highest : UInt16
  bitmap : UInt64
  age : UInt32
  deriving DecidableEq, Repr

/-- `lm_air_rx_stats_t`. -/
structure LmAirRxStats where
  framesAccepted : UInt32
  framesRejected : UInt32
  messagesDelivered : UInt32
  replayRejected : UInt32
  duplicateFragments : UInt32
  reassemblyEvictions : UInt32
  authFailures : UInt32
  fecFailures : UInt32
  deriving DecidableEq, Repr

/-- `lm_air_rx_t`. -/
structure LmAirRx where
  clock : UInt32
  slots : Vector LmAirReassemblySlot lmAirRxReassemblySlots
  replay : Vector LmAirReplayEntry lmAirRxReplayStreams
  stats : LmAirRxStats
  deriving DecidableEq

/-- The callbacks of a receiver as they answer during one call. -/
structure LmAirRxCallbacks where
  /-- `crypto.verify` on the signed bytes and the signature. -/
  verify : Option (List UInt8 → List UInt8 → Int)
  receive : LmAirMessage → LmAirStatus

/-- A call of the receive callback, with the stream and the sequence number of the slot that the
message comes from. -/
structure LmAirDelivery where
  streamId : UInt16
  sequence : UInt16
  message : LmAirMessage
  deriving DecidableEq

/-- `lm_air_rx_init`. -/
def lmAirRxInit : LmAirRx where
  clock := 0
  slots := Vector.replicate lmAirRxReassemblySlots .zero
  replay := Vector.replicate lmAirRxReplayStreams ⟨false, 0, 0, 0, 0⟩
  stats := ⟨0, 0, 0, 0, 0, 0, 0, 0⟩

/-- `lm_air_rx_reset`. -/
def lmAirRxReset (_rx : LmAirRx) : LmAirRx := lmAirRxInit

/-! ## Replay table -/

/-- `find_replay`. -/
def findReplay (rx : LmAirRx) (streamId : UInt16) : Option (Fin lmAirRxReplayStreams) :=
  firstIndex fun i => (rx.replay.get i).used && (rx.replay.get i).streamId == streamId

/-- `sequence_delta`. -/
def sequenceDelta (sequence reference : UInt16) : Int :=
  let difference := sequence - reference
  if difference = 0 then 0
  else if difference < 0x8000 then difference.toNat
  else difference.toNat - 65536

/-- The second half of `is_replay`: an entry in use refuses a sequence number. -/
def LmAirReplayEntry.refuses (entry : LmAirReplayEntry) (sequence : UInt16) : Bool :=
  let delta := sequenceDelta sequence entry.highest
  if 0 < delta then false
  else
    let age := UInt16.ofInt (-delta)
    if 64 ≤ age then true
    else entry.bitmap &&& (1 <<< age.toUInt64) ≠ 0

/-- `is_replay`. -/
def isReplay (rx : LmAirRx) (streamId sequence : UInt16) : Bool :=
  match findReplay rx streamId with
  | none => false
  | some i => (rx.replay.get i).refuses sequence

/-- The second half of `commit_replay`: an entry in use takes in a sequence number. -/
def LmAirReplayEntry.commit (entry : LmAirReplayEntry) (sequence : UInt16) (clock : UInt32) :
    LmAirReplayEntry :=
  let delta := sequenceDelta sequence entry.highest
  if 0 < delta then
    { entry with
      bitmap := if 64 ≤ delta then 1 else (entry.bitmap <<< UInt64.ofInt delta) ||| 1
      highest := sequence
      age := clock }
  else
    let age := UInt16.ofInt (-delta)
    { entry with
      bitmap := if age < 64 then entry.bitmap ||| (1 <<< age.toUInt64) else entry.bitmap
      age := clock }

/-- `commit_replay`. -/
def commitReplay (rx : LmAirRx) (streamId sequence : UInt16) : LmAirRx :=
  let clock := rx.clock + 1
  match findReplay rx streamId with
  | none =>
      let oldest := oldestFrom (fun i => (rx.replay.get i).used) (fun i => (rx.replay.get i).age)
        (List.finRange lmAirRxReplayStreams) (0 : Fin 8)
      let entry := { used := true, streamId, highest := sequence, bitmap := 1, age := clock }
      { rx with clock, replay := rx.replay.set oldest entry oldest.isLt }
  | some i =>
      { rx with
        clock
        replay := rx.replay.set i ((rx.replay.get i).commit sequence clock) i.isLt }

/-! ## Reassembly -/

/-- A slot that `find_or_allocate_slot` sets up for a frame. -/
def LmAirReassemblySlot.allocated (frame : LmAirFrame) (clock : UInt32) : LmAirReassemblySlot :=
  { LmAirReassemblySlot.zero with
    used := true
    streamId := frame.streamId
    sequence := frame.sequence
    profile := frame.profile
    flags := frame.flags
    fragmentCount := frame.fragmentCount
    classId := frame.classId
    priority := frame.priority
    stateTag := frame.stateTag
    age := clock }

/-- `find_or_allocate_slot`: the receiver and the slot. -/
def findOrAllocateSlot (rx : LmAirRx) (frame : LmAirFrame) :
    LmAirRx × Fin lmAirRxReassemblySlots :=
  match firstIndex fun i =>
      (rx.slots.get i).used && (rx.slots.get i).streamId == frame.streamId &&
        (rx.slots.get i).sequence == frame.sequence with
  | some i => (rx, i)
  | none =>
      let oldest := oldestFrom (fun i => (rx.slots.get i).used) (fun i => (rx.slots.get i).age)
        (List.finRange lmAirRxReassemblySlots) (0 : Fin 2)
      let evictions := if (rx.slots.get oldest).used then rx.stats.reassemblyEvictions + 1
        else rx.stats.reassemblyEvictions
      let clock := rx.clock + 1
      ({ rx with
        clock
        slots := rx.slots.set oldest (.allocated frame clock) oldest.isLt
        stats := { rx.stats with reassemblyEvictions := evictions } }, oldest)

/-- The compaction loop of `deliver_slot`. The fragments move to the start of the array that holds
them: the array and the bytes assembled so far. -/
def compactFragments (fragmentLen : List UInt8) :
    List Nat → List UInt8 → Nat → Option (List UInt8 × Nat)
  | [], assembled, total => some (assembled, total)
  | i :: rest, assembled, total =>
      let len := (fragmentLen.getD i 0).toNat
      if lmAirMaxAssembledBytes < total + len then none
      else
        let fragment := readAt assembled (i * lmAirMaxFramePayload) len
        compactFragments fragmentLen rest (writeAt assembled total fragment) (total + len)

/-- A body that is read has a 16-bit length. -/
theorem read_body_lt (assembled : List UInt8) (bodyLen : UInt16) :
    (readAt assembled lmAirSemanticHeaderBytes bodyLen.toNat).length < 2 ^ 16 := by
  have hlt := bodyLen.toNat_lt
  rw [readAt, List.length_take]
  omega

/-- The message that `deliver_slot` reads from a slot, or the status of an early return. Only a
refused signature is counted, which the flag says. -/
def slotMessage (callbacks : LmAirRxCallbacks) (slot : LmAirReassemblySlot) (outerFlags : UInt8) :
    Except (LmAirStatus × Bool) LmAirMessage :=
  match compactFragments slot.fragmentLen (List.range slot.fragmentCount.toNat) slot.fragments 0
    with
  | none => .error (.errCapacity, false)
  | some (assembled, total) =>
      let byte := fun i => assembled.getD i 0
      if total < lmAirSemanticHeaderBytes ∨ byte 0 ≠ 0x4c ∨ byte 1 ≠ 0x4d ∨ byte 2 ≠ 0x53 ∨
          byte 3 ≠ 0x31 ∨ byte 4 ≠ lmAirVersion ∨ byte 47 ≠ 0 ∨ byte 6 ≠ slot.classId ∨
          byte 7 ≠ slot.priority ∨ getU16Be (assembled.drop 30) ≠ slot.stateTag then
        .error (.errFormat, false)
      else if byte 5 &&& ~~~ lmAirSemanticFlagAuth ≠ 0 then .error (.errFormat, false)
      else
        let bodyLen := getU16Be (assembled.drop 28)
        let signatureLen := (byte 46).toNat
        let expectedLen := lmAirSemanticHeaderBytes + bodyLen.toNat + signatureLen
        if expectedLen ≠ total ∨ (signatureLen ≠ 0 ∧ signatureLen ≠ lmAirSignatureBytes) then
          .error (.errFormat, false)
        else if (decide (byte 5 &&& lmAirSemanticFlagAuth ≠ 0) ≠
              decide (signatureLen = lmAirSignatureBytes)) ∨
            (decide (outerFlags &&& lmAirFlagAuthenticated ≠ 0) ≠
              decide (signatureLen = lmAirSignatureBytes)) then
          .error (.errAuth, false)
        else
          let canonicalLen := lmAirSemanticHeaderBytes + bodyLen.toNat
          let refused : Bool := match callbacks.verify with
            | none => true
            | some verify => verify (readAt assembled 0 canonicalLen)
                (readAt assembled canonicalLen lmAirSignatureBytes) ≠ 0
          if signatureLen ≠ 0 ∧ refused then .error (.errAuth, true)
          else
            .ok
              { sourceId := getU32Be (assembled.drop 8)
                epoch := getU32Be (assembled.drop 12)
                messageId := getU32Be (assembled.drop 16)
                logicalSequence := getU64Be (assembled.drop 20)
                classId := byte 6
                priority := byte 7
                stateHash := Vector.ofFn fun i => byte (30 + i)
                body := readAt assembled lmAirSemanticHeaderBytes bodyLen.toNat
                authenticated := if signatureLen ≠ 0 then 1 else 0
                body_lt := read_body_lt assembled bodyLen }

/-- `++rx->stats.auth_failures`. -/
def countAuthFailure (rx : LmAirRx) : LmAirRx :=
  { rx with stats := { rx.stats with authFailures := rx.stats.authFailures + 1 } }

/-- `++rx->stats.messages_delivered`. -/
def countDelivered (rx : LmAirRx) : LmAirRx :=
  { rx with stats := { rx.stats with messagesDelivered := rx.stats.messagesDelivered + 1 } }

/-- `deliver_slot`. -/
def deliverSlot (callbacks : LmAirRxCallbacks) (rx : LmAirRx) (slot : LmAirReassemblySlot)
    (outerFlags : UInt8) : LmAirRx × LmAirStatus × Option LmAirDelivery :=
  match slotMessage callbacks slot outerFlags with
  | .error (status, counted) => (if counted then countAuthFailure rx else rx, status, none)
  | .ok message =>
      (countDelivered (commitReplay rx slot.streamId slot.sequence),
        if (callbacks.receive message).isError then .errCallback else .complete,
        some ⟨slot.streamId, slot.sequence, message⟩)

/-- A slot after it took in the payload of a frame. -/
def LmAirReassemblySlot.store (slot : LmAirReassemblySlot) (frame : LmAirFrame) (clock : UInt32) :
    LmAirReassemblySlot :=
  { slot with
    fragments := writeAt slot.fragments (frame.fragmentIndex.toNat * lmAirMaxFramePayload)
      (frame.payload.take frame.payloadLen.toNat)
    fragmentLen := slot.fragmentLen.set frame.fragmentIndex.toNat frame.payloadLen
    receivedBitmap := slot.receivedBitmap ||| (1 <<< frame.fragmentIndex.toUInt32)
    age := clock
    fragment_len_size := by rw [List.length_set, slot.fragment_len_size]
    fragments_size := by rw [write_at_length, slot.fragments_size] }

/-- `complete_mask` of `ingest_frame`. -/
def completeMask (fragmentCount : UInt8) : UInt32 :=
  if fragmentCount = 32 then 0xffffffff else (1 <<< fragmentCount.toUInt32) - 1

/-- `ingest_frame`. -/
def ingestFrame (callbacks : LmAirRxCallbacks) (rx : LmAirRx) (frame : LmAirFrame) :
    LmAirRx × LmAirStatus × Option LmAirDelivery :=
  if isReplay rx frame.streamId frame.sequence then
    ({ rx with stats := { rx.stats with replayRejected := rx.stats.replayRejected + 1 } },
      .errReplay, none)
  else
    let (rx, i) := findOrAllocateSlot rx frame
    let slot := rx.slots.get i
    if slot.fragmentCount ≠ frame.fragmentCount ∨ slot.profile ≠ frame.profile ∨
        slot.flags ≠ frame.flags ∨ slot.classId ≠ frame.classId ∨
        slot.priority ≠ frame.priority ∨ slot.stateTag ≠ frame.stateTag then
      (rx, .errFormat, none)
    else if slot.receivedBitmap &&& (1 <<< frame.fragmentIndex.toUInt32) ≠ 0 then
      ({ rx with stats := { rx.stats with
          duplicateFragments := rx.stats.duplicateFragments + 1 } }, .errDuplicate, none)
    else
      let clock := rx.clock + 1
      let slot := slot.store frame clock
      let rx := { rx with
        clock
        slots := rx.slots.set i slot i.isLt
        stats := { rx.stats with framesAccepted := rx.stats.framesAccepted + 1 } }
      if slot.receivedBitmap ≠ completeMask frame.fragmentCount then (rx, .more, none)
      else
        let (rx, status, delivery) := deliverSlot callbacks rx slot frame.flags
        ({ rx with slots := rx.slots.set i .zero i.isLt }, status, delivery)

/-- A rejected frame is counted. -/
def countRejected (rx : LmAirRx) : LmAirRx :=
  { rx with stats := { rx.stats with framesRejected := rx.stats.framesRejected + 1 } }

/-- The call of `ingest_frame` in `lm_air_rx_ingest_wire` and `lm_air_rx_ingest_block`. -/
def ingestDecoded (callbacks : LmAirRxCallbacks) (rx : LmAirRx) (frame : LmAirFrame) :
    LmAirRx × LmAirStatus × Option LmAirDelivery :=
  let (rx, status, delivery) := ingestFrame callbacks rx frame
  (if status.isError then countRejected rx else rx, status, delivery)

/-- `lm_air_rx_ingest_wire`. -/
def lmAirRxIngestWire (callbacks : LmAirRxCallbacks) (rx : LmAirRx) (wire : List UInt8) :
    LmAirRx × LmAirStatus × Option LmAirDelivery :=
  match lmAirFrameDecode wire with
  | (_, some frame) => ingestDecoded callbacks rx frame
  | (status, none) => (countRejected rx, status, none)

/-- `++rx->stats.fec_failures`. -/
def countFecFailure (rx : LmAirRx) : LmAirRx :=
  { rx with stats := { rx.stats with fecFailures := rx.stats.fecFailures + 1 } }

/-- A scratch buffer of the receiver. -/
def scratchBuffer : List UInt8 := List.replicate lmAirFecMaxCodedBytes 0

/-- The bytes that `lm_air_rx_ingest_block` hands to the frame decoder, or the status of an early
return. Only a failure of the interleaver or the decoder is counted, which the flag says. -/
def blockBytes (block : LmAirBlock) : Except (LmAirStatus × Bool) (List UInt8) :=
  let rawLen := block.rawLen.toNat
  let bitLen := block.bitLen.toNat
  if rawLen < 16 ∨ lmAirMaxWireBytes < rawLen ∨ bitLen = 0 ∨ lmAirFecMaxCodedBits < bitLen ∨
      64 < block.interleaveRows ∨ block.interleaveRows = 1 ∨ 1 < block.fec then
    .error (.errArgument, false)
  else if lmAirFecMaxCodedBytes < (bitLen + 7) / 8 then .error (.errCapacity, false)
  else
    let (status, coded) := if block.interleaveRows ≠ 0 then
        lmAirDeinterleaveBits block.data bitLen scratchBuffer block.interleaveRows
      else (.ok, block.data)
    if status ≠ .ok then .error (status, true)
    else if block.fec ≠ 0 then
      let (status, raw, _) := lmAirFecDecodeHard coded bitLen scratchBuffer rawLen
      if status ≠ .ok then .error (status, true) else .ok (raw.take rawLen)
    else if bitLen ≠ rawLen * 8 then .error (.errFormat, false)
    else .ok (coded.take rawLen)

/-- `lm_air_rx_ingest_block`. -/
def lmAirRxIngestBlock (callbacks : LmAirRxCallbacks) (rx : LmAirRx) (block : LmAirBlock) :
    LmAirRx × LmAirStatus × Option LmAirDelivery :=
  match blockBytes block with
  | .error (status, counted) => (if counted then countFecFailure rx else rx, status, none)
  | .ok raw =>
      match lmAirFrameDecode raw with
      | (status, none) => (countRejected rx, status, none)
      | (_, some frame) =>
          if decide (frame.flags &&& lmAirFlagFec ≠ 0) ≠ decide (block.fec ≠ 0) then
            (countRejected rx, .errFormat, none)
          else ingestDecoded callbacks rx frame

end LatentMesh.AirC
