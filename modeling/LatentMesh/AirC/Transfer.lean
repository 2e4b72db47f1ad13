import LatentMesh.AirC.BlockCodec
import LatentMesh.AirC.Envelope
import LatentMesh.AirC.FrameCodec
import LatentMesh.Lib.Chunks

/-!
# What the C transmitter emits

A message on its way is a `Transfer`: its envelope is cut into the payloads of at most 32 frames.
After `lm_air_tx_begin` the transmitter sends a transfer (`Begun.sends`), every poll emits a block
that carries its next frame (`poll_sends`), and a send emits the blocks of the first frames, all of
them when it succeeds (`send_outcome`).
-/

namespace LatentMesh.AirC

open LatentMesh.Lib LatentMesh.AirCore

/-! ## Beginning a message -/

/-- `envelope_len` of `lm_air_tx_begin`. -/
def envelopeLen (message : LmAirMessage) : Nat :=
  canonicalLen message + (signatureLen message).toNat

/-- The envelope has the length that `lm_air_tx_begin` computes. -/
theorem envelope_bytes_length {message : LmAirMessage} {signature : List UInt8}
    (h : signature.length = (signatureLen message).toNat) :
    (envelopeBytes message signature).length = envelopeLen message := by
  rw [envelopeBytes, List.length_append, canonical_bytes_length, h, envelopeLen]

/-- The transmitter after a message was begun. -/
structure Begun (sign : Option LmAirSign) (tx : LmAirTx) (message : LmAirMessage)
    (tx' : LmAirTx) : Prop where
  class_le : message.classId ≤ lmAirClassDiagnostic
  priority_le : message.priority ≤ 0x0f
  phase : tx'.phase = .emitting
  profile : tx'.profile = tx.profile
  streamId : tx'.streamId = tx.streamId
  nextSequence : tx'.nextSequence = tx.nextSequence
  activeSequence : tx'.activeSequence = tx.nextSequence
  fragmentIndex : tx'.fragmentIndex = 0
  fragmentCount : tx'.fragmentCount =
    UInt8.ofNat (divCeil (envelopeLen message) tx.profile.fragmentPayloadBytes.toNat)
  count_pos : tx'.fragmentCount ≠ 0
  count_le : tx'.fragmentCount.toNat ≤ lmAirMaxFragments
  classId : tx'.classId = message.classId
  priority : tx'.priority = message.priority
  stateTag : tx'.stateTag = getU16Be message.stateHash.toList
  length : tx'.envelopeLen.toNat = envelopeLen message
  envelope : ∃ signature, Signs sign message signature ∧
    readAt tx'.envelope 0 (envelopeLen message) = envelopeBytes message signature

/-- The outcomes of `lm_air_tx_begin`: the transmitter afterwards and the status. -/
inductive BeginOutcome (sign : Option LmAirSign) (tx : LmAirTx) (message : LmAirMessage)
    (tx' : LmAirTx) : LmAirStatus → Prop where
  | refused {status : LmAirStatus} (hstatus : status.isError = true) (hsame : tx' = tx) :
      BeginOutcome sign tx message tx' status
  | failed {status : LmAirStatus} (hstatus : status.isError = true) (hphase : tx'.phase = .failed)
      (hprofile : tx'.profile = tx.profile) (hstream : tx'.streamId = tx.streamId)
      (hnext : tx'.nextSequence = tx.nextSequence) : BeginOutcome sign tx message tx' status
  | begun (hbegun : Begun sign tx message tx') : BeginOutcome sign tx message tx' .ok

/-- A frame has room for a byte. -/
theorem payload_bytes_pos (tx : LmAirTx) : 0 < tx.profile.fragmentPayloadBytes.toNat := by
  obtain ⟨-, hpos, -⟩ := valid_profile_config_iff.mp tx.profile_valid
  exact Nat.pos_of_ne_zero fun h => hpos (UInt8.toNat_inj.mp h)

/-- What `lm_air_tx_begin` does. -/
theorem begin_outcome (sign : Option LmAirSign) (tx : LmAirTx) (message : LmAirMessage) :
    BeginOutcome sign tx message (lmAirTxBegin sign tx message).1
      (lmAirTxBegin sign tx message).2 := by
  unfold lmAirTxBegin
  dsimp only
  split
  · exact .refused rfl rfl
  rename_i hfields
  split
  · exact .refused rfl rfl
  split
  · exact .failed rfl rfl rfl rfl rfl
  rename_i hhook
  split
  · exact .refused rfl rfl
  rename_i hcapacity
  split
  · exact .failed rfl rfl rfl rfl rfl
  rename_i hresult
  split
  · exact .failed rfl rfl rfl rfl rfl
  rename_i hcount
  rw [not_or, UInt8.not_lt, UInt8.not_lt] at hfields
  rw [not_or, Nat.not_lt] at hcount
  have hroom : envelopeLen message ≤ tx.envelope.length := by
    rw [tx.envelope_size]
    exact Nat.not_lt.mp hcapacity
  refine .begun
    { class_le := hfields.1, priority_le := hfields.2, phase := rfl, profile := rfl
      streamId := rfl, nextSequence := rfl, activeSequence := rfl, fragmentIndex := rfl
      fragmentCount := ?_, count_pos := hcount.1, count_le := hcount.2, classId := rfl
      priority := rfl, stateTag := rfl, length := ?_
      envelope := write_envelope_ok hhook hroom (not_not.mp hresult) }
  · exact congrArg UInt8.ofNat (div_ceil_eq (payload_bytes_pos tx))
  · refine UInt16.toNat_ofNat_of_lt' (Nat.lt_of_le_of_lt hroom ?_)
    rw [tx.envelope_size]
    decide

/-! ## Transfers -/

/-- A message on its way from one transmitter to a receiver. -/
structure Transfer where
  profile : LmAirProfileConfig
  streamId : UInt16
  sequence : UInt16
  message : LmAirMessage
  signature : List UInt8
  profile_valid : validProfileConfig profile = true
  class_le : message.classId ≤ lmAirClassDiagnostic
  priority_le : message.priority ≤ 0x0f
  signature_size : signature.length = (signatureLen message).toNat
  count_le : divCeil (envelopeLen message) profile.fragmentPayloadBytes.toNat ≤ lmAirMaxFragments

namespace Transfer

/-- The payload bytes of a frame. -/
def payloadBytes (transfer : Transfer) : Nat := transfer.profile.fragmentPayloadBytes.toNat

/-- The bytes that are cut into fragments. -/
def envelope (transfer : Transfer) : List UInt8 :=
  envelopeBytes transfer.message transfer.signature

/-- The number of fragments. -/
def count (transfer : Transfer) : Nat := divCeil transfer.envelope.length transfer.payloadBytes

/-- The payload of a frame. -/
def fragment (transfer : Transfer) (index : Nat) : List UInt8 :=
  chunk transfer.payloadBytes transfer.envelope index

/-- The flags of every frame. -/
def flags (transfer : Transfer) : UInt8 :=
  (if transfer.profile.useFec ≠ 0 then lmAirFlagFec else 0) |||
    (if transfer.message.authenticated ≠ 0 then lmAirFlagAuthenticated else 0)

/-- The frame of a fragment. -/
def frame (transfer : Transfer) (index : Nat) : LmAirFrame where
  profile := transfer.profile.profile
  flags := transfer.flags
  streamId := transfer.streamId
  sequence := transfer.sequence
  fragmentIndex := UInt8.ofNat index
  fragmentCount := UInt8.ofNat transfer.count
  classId := transfer.message.classId
  priority := transfer.message.priority
  stateTag := getU16Be transfer.message.stateHash.toList
  payloadLen := UInt8.ofNat (transfer.fragment index).length
  payload := payloadArray (transfer.fragment index)
  payload_size := payload_array_length _

variable (transfer : Transfer)

/-- The envelope has the length that `lm_air_tx_begin` computes. -/
theorem envelope_length : transfer.envelope.length = envelopeLen transfer.message :=
  envelope_bytes_length transfer.signature_size

/-- A frame of a transfer has room for a byte. -/
theorem payload_bytes_pos : 0 < transfer.payloadBytes := by
  obtain ⟨-, hpos, -⟩ := valid_profile_config_iff.mp transfer.profile_valid
  exact Nat.pos_of_ne_zero fun h => hpos (UInt8.toNat_inj.mp h)

/-- A fragment fits into a frame. -/
theorem payload_bytes_le : transfer.payloadBytes ≤ lmAirMaxFramePayload :=
  (valid_profile_config_iff.mp transfer.profile_valid).2.2.1

/-- A transfer has at most 32 fragments. -/
theorem count_le_max : transfer.count ≤ lmAirMaxFragments := by
  rw [count, envelope_length]
  exact transfer.count_le

/-- A transfer has a fragment. -/
theorem count_pos : 0 < transfer.count := by
  refine div_ceil_pos transfer.payload_bytes_pos ?_
  rw [envelope_length, envelopeLen, canonicalLen, lmAirSemanticHeaderBytes]
  omega

/-- No fragment is longer than a frame allows. -/
theorem fragment_length_le (index : Nat) :
    (transfer.fragment index).length ≤ lmAirMaxFramePayload := by
  rw [fragment, chunk_length]
  exact Nat.le_trans (Nat.min_le_left _ _) transfer.payload_bytes_le

/-- The count fits into its byte. -/
theorem count_to_nat : (UInt8.ofNat transfer.count).toNat = transfer.count := by
  have hle := transfer.count_le_max
  rw [lmAirMaxFragments] at hle
  exact UInt8.toNat_ofNat_of_lt' (Nat.lt_of_le_of_lt hle (by decide))

/-- Every index fits into its byte. -/
theorem index_to_nat {index : Nat} (h : index < transfer.count) :
    (UInt8.ofNat index).toNat = index := by
  have hle := transfer.count_le_max
  rw [lmAirMaxFragments] at hle
  exact UInt8.toNat_ofNat_of_lt'
    (Nat.lt_of_le_of_lt (Nat.le_of_lt (Nat.lt_of_lt_of_le h hle)) (by decide))

/-- The length of a fragment fits into its byte. -/
theorem payload_len_to_nat (index : Nat) :
    (UInt8.ofNat (transfer.fragment index).length).toNat = (transfer.fragment index).length := by
  have hle := transfer.fragment_length_le index
  rw [lmAirMaxFramePayload] at hle
  exact UInt8.toNat_ofNat_of_lt' (Nat.lt_of_le_of_lt hle (by decide))

/-- The receiver reads the fragment from the payload of the frame. -/
theorem frame_payload (index : Nat) :
    (transfer.frame index).payload.take (transfer.frame index).payloadLen.toNat =
      transfer.fragment index := by
  change (payloadArray _).take (UInt8.ofNat _).toNat = _
  rw [transfer.payload_len_to_nat, payload_array_take (transfer.fragment_length_le index)]

/-- The fragments join to the envelope. -/
theorem fragments_flatten :
    (List.range transfer.count).flatMap transfer.fragment = transfer.envelope := by
  have hflatten := flatten_chunks transfer.payload_bytes_pos transfer.envelope
  rwa [chunks, ← List.flatMap_def] at hflatten

/-- The frames of a transfer are valid. -/
theorem frame_valid {index : Nat} (h : index < transfer.count) :
    validateFrame (transfer.frame index) = .ok := by
  have hcount := transfer.count_le_max
  have hflags : ∀ fec authenticated : Prop, ∀ [Decidable fec] [Decidable authenticated],
      (if fec then lmAirFlagFec else 0) ||| (if authenticated then lmAirFlagAuthenticated else 0) ≤
        0x0f := by
    intro fec authenticated _ _
    split <;> split <;> decide
  refine validate_frame_eq_ok_iff.mpr ⟨⟨?_, hflags _ _, transfer.class_le, transfer.priority_le⟩,
    ?_, ?_, ?_⟩
  · exact (valid_profile_config_iff.mp transfer.profile_valid).1
  · intro hzero
    have hpos := transfer.count_pos
    rw [← transfer.count_to_nat, show UInt8.ofNat transfer.count = 0 from hzero] at hpos
    exact absurd hpos (by decide)
  · refine UInt8.le_iff_toNat_le.mpr ?_
    change (UInt8.ofNat transfer.count).toNat ≤ 32
    rw [transfer.count_to_nat]
    exact hcount
  · refine UInt8.lt_iff_toNat_lt.mpr ?_
    change (UInt8.ofNat index).toNat < (UInt8.ofNat transfer.count).toNat
    rw [transfer.count_to_nat, transfer.index_to_nat h]
    exact h

end Transfer

/-! ## Polling -/

/-- The transmitter emits the fragment `index` of a transfer next. -/
structure LmAirTx.Sends (tx : LmAirTx) (transfer : Transfer) (index : Nat) : Prop where
  phase : tx.phase = .emitting
  index_lt : index < transfer.count
  fragmentIndex : tx.fragmentIndex = UInt8.ofNat index
  fragmentCount : tx.fragmentCount = UInt8.ofNat transfer.count
  profile : tx.profile = transfer.profile
  streamId : tx.streamId = transfer.streamId
  sequence : tx.activeSequence = transfer.sequence
  classId : tx.classId = transfer.message.classId
  priority : tx.priority = transfer.message.priority
  stateTag : tx.stateTag = getU16Be transfer.message.stateHash.toList
  envelopeLen : tx.envelopeLen.toNat = transfer.envelope.length
  envelope : readAt tx.envelope 0 transfer.envelope.length = transfer.envelope

/-- A begun message of at most 32 fragments is a transfer. -/
theorem Begun.sends {sign : Option LmAirSign} {tx tx' : LmAirTx} {message : LmAirMessage}
    (h : Begun sign tx message tx')
    (hcount : divCeil (envelopeLen message) tx.profile.fragmentPayloadBytes.toNat ≤
      lmAirMaxFragments) :
    ∃ transfer : Transfer, transfer.profile = tx.profile ∧ transfer.streamId = tx.streamId ∧
      transfer.sequence = tx.nextSequence ∧ transfer.message = message ∧
      Signs sign message transfer.signature ∧ tx'.Sends transfer 0 := by
  obtain ⟨signature, hsigns, henvelope⟩ := h.envelope
  let transfer : Transfer :=
    { profile := tx.profile, streamId := tx.streamId, sequence := tx.nextSequence, message
      signature, profile_valid := tx.profile_valid, class_le := h.class_le
      priority_le := h.priority_le, signature_size := hsigns.length, count_le := hcount }
  have hlength : transfer.envelope.length = envelopeLen message := transfer.envelope_length
  refine ⟨transfer, rfl, rfl, rfl, rfl, hsigns, h.phase, transfer.count_pos, h.fragmentIndex, ?_,
    h.profile, h.streamId, h.activeSequence, h.classId, h.priority, h.stateTag, ?_, ?_⟩
  · rw [h.fragmentCount, Transfer.count, hlength]
    rfl
  · rw [h.length, hlength]
  · rw [hlength]
    exact henvelope

/-- Reading a fragment from a buffer that starts with the items. -/
theorem read_at_eq_chunk {buffer items : List UInt8} {size index count : Nat}
    (h : readAt buffer 0 items.length = items) (hindex : index * size ≤ items.length)
    (hcount : count = min size (items.length - index * size)) :
    readAt buffer (index * size) count = chunk size items index := by
  have hsplit := List.take_append_drop items.length buffer
  rw [← read_at_zero, h] at hsplit
  rw [readAt, ← hsplit, List.drop_append_of_le_length hindex,
    List.take_append_of_le_length (by rw [List.length_drop]; omega), chunk, hcount,
    List.take_eq_take_iff, List.length_drop]
  omega

/-- The receiver decodes a frame from a block. -/
def LmAirBlock.Carries (block : LmAirBlock) (frame : LmAirFrame) : Prop :=
  ∃ wire, blockBytes block = .ok wire ∧ lmAirFrameDecode wire = (.ok, some frame) ∧
    (frame.flags &&& lmAirFlagFec ≠ 0 ↔ block.fec ≠ 0)

/-- A block is ingested as the frame that it carries. -/
theorem ingest_block_of_carries {block : LmAirBlock} {frame : LmAirFrame}
    (h : block.Carries frame) (callbacks : LmAirRxCallbacks) (rx : LmAirRx) :
    lmAirRxIngestBlock callbacks rx block = ingestDecoded callbacks rx frame := by
  obtain ⟨wire, hbytes, hdecode, hfec⟩ := h
  unfold lmAirRxIngestBlock
  rw [hbytes]
  dsimp only
  rw [hdecode]
  exact if_neg (not_not.mpr (decide_eq_decide.mpr hfec))

/-- The frames of a transfer say whether the code is used. -/
theorem Transfer.fec_flag_iff (transfer : Transfer) :
    transfer.flags &&& lmAirFlagFec ≠ 0 ↔ transfer.profile.useFec ≠ 0 := by
  unfold Transfer.flags
  by_cases hfec : transfer.profile.useFec = 0
  · rw [if_neg (not_not.mpr hfec)]
    refine ⟨fun h => absurd ?_ h, fun h => absurd hfec h⟩
    split <;> rfl
  · rw [if_pos hfec]
    refine ⟨fun _ => hfec, fun _ => ?_⟩
    split <;> decide

/-- `lm_air_tx_poll` after it wrote a block. -/
def LmAirTx.advance (tx : LmAirTx) : LmAirTx :=
  let tx := { tx with fragmentIndex := tx.fragmentIndex + 1 }
  if tx.fragmentIndex = tx.fragmentCount then
    { tx with phase := .done, nextSequence := tx.nextSequence + 1 }
  else tx

namespace LmAirTx.Sends

variable {tx : LmAirTx} {transfer : Transfer} {index : Nat}

/-- The next fragment begins within the envelope. -/
theorem offset_lt (h : tx.Sends transfer index) :
    index * transfer.payloadBytes < transfer.envelope.length :=
  mul_lt_of_lt_div_ceil transfer.payload_bytes_pos h.index_lt

/-- The frame that the transmitter builds. -/
theorem frame_eq (h : tx.Sends transfer index) : tx.frame = transfer.frame index := by
  have hoffset := h.offset_lt
  have hindex : tx.fragmentIndex.toNat = index := by
    rw [h.fragmentIndex, transfer.index_to_nat h.index_lt]
  obtain ⟨hheader, -⟩ := envelope_read h.envelope
  have hsize : tx.profile.fragmentPayloadBytes.toNat = transfer.payloadBytes := by
    rw [h.profile]
    rfl
  have hlen : (if transfer.envelope.length - index * transfer.payloadBytes < transfer.payloadBytes
      then transfer.envelope.length - index * transfer.payloadBytes else transfer.payloadBytes) =
        (transfer.fragment index).length := by
    rw [Transfer.fragment, chunk_length]
    split <;> omega
  have hread : readAt tx.envelope (index * transfer.payloadBytes)
      (transfer.fragment index).length = transfer.fragment index :=
    read_at_eq_chunk h.envelope (Nat.le_of_lt hoffset) (chunk_length _ _ _)
  have hflag : (tx.envelope.getD 5 0 &&& lmAirSemanticFlagAuth ≠ 0) ↔
      transfer.message.authenticated ≠ 0 := by
    rw [hheader.flags]
    exact auth_bit_iff _
  have hflags : (if tx.profile.useFec ≠ 0 then lmAirFlagFec else 0) |||
      (if tx.envelope.getD 5 0 &&& lmAirSemanticFlagAuth ≠ 0 then lmAirFlagAuthenticated else 0) =
        transfer.flags := by
    rw [if_congr hflag rfl rfl, h.profile]
    rfl
  unfold LmAirTx.frame Transfer.frame
  simp only [hindex, hsize, h.envelopeLen, hlen, hread, hflags]
  simp only [h.profile, h.streamId, h.sequence, h.fragmentIndex, h.fragmentCount, h.classId,
    h.priority, h.stateTag]

/-- The transmitter's test for the last fragment. -/
theorem last_iff (h : tx.Sends transfer index) :
    tx.fragmentIndex + 1 = tx.fragmentCount ↔ index + 1 = transfer.count := by
  have hcount := transfer.count_le_max
  have hlt := h.index_lt
  rw [lmAirMaxFragments] at hcount
  rw [h.fragmentIndex, h.fragmentCount, ← UInt8.toNat_inj, UInt8.toNat_add,
    transfer.index_to_nat hlt, transfer.count_to_nat, show (1 : UInt8).toNat = 1 from rfl,
    Nat.mod_eq_of_lt (by omega)]

/-- The transmitter moves on to the next fragment. -/
theorem advance (h : tx.Sends transfer index) (hmore : index + 1 ≠ transfer.count) :
    tx.advance.Sends transfer (index + 1) := by
  have hlt := h.index_lt
  have hstep : tx.advance = { tx with fragmentIndex := tx.fragmentIndex + 1 } :=
    if_neg fun hlast => hmore (h.last_iff.mp hlast)
  rw [hstep]
  refine ⟨h.phase, by omega, ?_, h.fragmentCount, h.profile, h.streamId, h.sequence, h.classId,
    h.priority, h.stateTag, h.envelopeLen, h.envelope⟩
  rw [h.fragmentIndex, UInt8.ofNat_add]
  rfl

/-- A poll emits a block that carries the next frame. -/
theorem poll (h : tx.Sends transfer index) :
    ∃ block : LmAirBlock, block.Carries (transfer.frame index) ∧
      lmAirTxPoll tx =
        (tx.advance, if index + 1 = transfer.count then .complete else .more, some block) := by
  have hpayload : (transfer.frame index).payloadLen.toNat ≤ lmAirMaxFramePayload := by
    change (UInt8.ofNat _).toNat ≤ _
    rw [transfer.payload_len_to_nat]
    exact transfer.fragment_length_le index
  have hfits : 16 + (transfer.frame index).payloadLen.toNat ≤ lmAirMaxWireBytes := by
    rw [lmAirMaxFramePayload] at hpayload
    rw [lmAirMaxWireBytes]
    omega
  have hencode : lmAirFrameEncode (transfer.frame index) (fun _ => 0) lmAirMaxWireBytes =
      (.ok, _) :=
    (lm_air_frame_encode_eq_ok_iff _ _ _).mpr ⟨transfer.frame_valid h.index_lt, hfits, rfl⟩
  have hlength := wire_length_of_encode hencode
  have hdecode := decode_encode hencode hpayload
  generalize frameCheckedBytes (transfer.frame index) (fun _ => 0) ++ _ = wire at *
  obtain ⟨block, hblock, hbytes, hfec⟩ := block_bytes_encode_block transfer.profile_valid
    (show 16 ≤ wire.length by omega) (by rwa [hlength])
  rw [← h.profile] at hblock
  refine ⟨block, ⟨wire, hbytes, ?_, ?_⟩, ?_⟩
  · rw [hdecode, transfer.frame_payload]
    rfl
  · rw [hfec]
    exact transfer.fec_flag_iff
  · unfold lmAirTxPoll
    rw [if_neg (not_not.mpr h.phase), h.frame_eq, hencode]
    dsimp only
    rw [if_neg (not_not.mpr rfl), hblock]
    dsimp only
    by_cases hlast : index + 1 = transfer.count
    · rw [if_pos (h.last_iff.mpr hlast), if_pos hlast]
      congr 1
      exact (if_pos (h.last_iff.mpr hlast)).symm
    · rw [if_neg (mt h.last_iff.mp hlast), if_neg hlast]
      congr 1
      exact (if_neg (mt h.last_iff.mp hlast)).symm

end LmAirTx.Sends

/-! ## Sending -/

/-- What the loop of a send did: it emitted the blocks of the fragments from `index` to before
`stop`, and the sequence number is used up when these are all. -/
structure SendOutcome (emit : Nat → LmAirBlock → LmAirStatus) (tx : LmAirTx)
    (transfer : Transfer) (index stop : Nat) (tx' : LmAirTx) (status : LmAirStatus)
    (blocks : List LmAirBlock) : Prop where
  lt_stop : index < stop
  stop_le : stop ≤ transfer.count
  blocks : List.Forall₂ (fun block i => block.Carries (transfer.frame i)) blocks
    (List.range' index (stop - index))
  profile : tx'.profile = tx.profile
  streamId : tx'.streamId = tx.streamId
  phase : tx'.phase = if status = .ok then .done else .failed
  nextSequence : tx'.nextSequence =
    if stop = transfer.count then tx.nextSequence + 1 else tx.nextSequence
  status : (status = .ok ∧ stop = transfer.count) ∨
    (status = .errCallback ∧ ∃ position block, (emit position block).isError = true)

namespace SendOutcome

variable {emit : Nat → LmAirBlock → LmAirStatus} {tx tx' : LmAirTx} {transfer : Transfer}
  {start stop : Nat} {status : LmAirStatus} {emitted : List LmAirBlock}

/-- Every block that is emitted carries a frame of the transfer. -/
theorem carries_of_mem (h : SendOutcome emit tx transfer start stop tx' status emitted)
    {block : LmAirBlock} (hmem : block ∈ emitted) :
    ∃ index < stop, block.Carries (transfer.frame index) := by
  obtain ⟨i, hi, rfl⟩ := List.mem_iff_getElem.mp hmem
  have hlength := h.blocks.length_eq
  rw [List.length_range'] at hlength
  have hcarries := h.blocks.get hi (by rw [List.length_range']; omega)
  rw [List.get_eq_getElem, List.get_eq_getElem, List.getElem_range'] at hcarries
  exact ⟨start + 1 * i, by omega, hcarries⟩

/-- A block is emitted for every frame up to the end. -/
theorem exists_block (h : SendOutcome emit tx transfer start stop tx' status emitted) {index : Nat}
    (hstart : start ≤ index) (hstop : index < stop) :
    ∃ block ∈ emitted, LmAirBlock.Carries block (transfer.frame index) := by
  have hlength := h.blocks.length_eq
  rw [List.length_range'] at hlength
  have hcarries := h.blocks.get (show index - start < emitted.length by omega)
    (by rw [List.length_range']; omega)
  rw [List.get_eq_getElem, List.get_eq_getElem, List.getElem_range',
    show start + 1 * (index - start) = index by omega] at hcarries
  exact ⟨_, List.getElem_mem _, hcarries⟩

end SendOutcome

/-- Advancing keeps the profile. -/
theorem LmAirTx.advance_profile (tx : LmAirTx) : tx.advance.profile = tx.profile := by
  unfold LmAirTx.advance
  dsimp only
  split <;> rfl

/-- Advancing keeps the stream. -/
theorem LmAirTx.advance_stream_id (tx : LmAirTx) : tx.advance.streamId = tx.streamId := by
  unfold LmAirTx.advance
  dsimp only
  split <;> rfl

/-- The sequence number advances with the last fragment only. -/
theorem LmAirTx.Sends.advance_next {tx : LmAirTx} {transfer : Transfer} {index : Nat}
    (h : tx.Sends transfer index) : tx.advance.nextSequence =
      if index + 1 = transfer.count then tx.nextSequence + 1 else tx.nextSequence := by
  unfold LmAirTx.advance
  dsimp only
  by_cases hlast : index + 1 = transfer.count
  · rw [if_pos (h.last_iff.mpr hlast), if_pos hlast]
  · rw [if_neg (mt h.last_iff.mp hlast), if_neg hlast]

/-- The loop ends before its fuel does. -/
theorem send_loop_outcome (emit : Nat → LmAirBlock → LmAirStatus) {tx : LmAirTx}
    {transfer : Transfer} {index : Nat} (h : tx.Sends transfer index) {fuel : Nat}
    (hfuel : transfer.count - index ≤ fuel) (position : Nat) :
    ∃ stop, SendOutcome emit tx transfer index stop (sendLoop emit fuel position tx).1
      (sendLoop emit fuel position tx).2.1 (sendLoop emit fuel position tx).2.2 := by
  induction fuel generalizing tx index position with
  | zero =>
      have hlt := h.index_lt
      omega
  | succ fuel ih =>
      have hlt := h.index_lt
      obtain ⟨block, hcarries, hpoll⟩ := h.poll
      have hone : List.Forall₂ (fun block i => LmAirBlock.Carries block (transfer.frame i)) [block]
          (List.range' index (index + 1 - index)) := by
        rw [Nat.add_sub_cancel_left]
        exact .cons hcarries .nil
      rw [sendLoop, hpoll]
      dsimp only
      by_cases hemit : (emit position block).isError = true
      · rw [if_pos hemit]
        exact ⟨index + 1, by omega, by omega, hone, tx.advance_profile, tx.advance_stream_id, rfl,
          h.advance_next, Or.inr ⟨rfl, position, block, hemit⟩⟩
      · rw [if_neg hemit]
        by_cases hlast : index + 1 = transfer.count
        · have hdone : tx.advance.phase = .done := by
            unfold LmAirTx.advance
            dsimp only
            rw [if_pos (h.last_iff.mpr hlast)]
          rw [if_pos (by rw [if_pos hlast]; decide)]
          exact ⟨index + 1, by omega, by omega, hone, tx.advance_profile, tx.advance_stream_id,
            hdone, h.advance_next, Or.inl ⟨rfl, hlast⟩⟩
        · rw [if_neg (by rw [if_neg hlast]; decide)]
          obtain ⟨stop, hrest⟩ := ih (h.advance hlast) (by omega) (position + 1)
          have hnext := h.advance_next
          rw [if_neg hlast] at hnext
          refine ⟨stop, by have := hrest.lt_stop; omega, hrest.stop_le, ?_,
            hrest.profile.trans tx.advance_profile, hrest.streamId.trans tx.advance_stream_id,
            hrest.phase, ?_, hrest.status⟩
          · have hrange : List.range' index (stop - index) =
                index :: List.range' (index + 1) (stop - (index + 1)) := by
              have hstop := hrest.lt_stop
              rw [show stop - index = stop - (index + 1) + 1 by omega, List.range'_succ]
            rw [hrange]
            exact .cons hcarries hrest.blocks
          · rw [hrest.nextSequence, hnext]

section

variable {sign : Option LmAirSign} {tx : LmAirTx} {message : LmAirMessage}

/-- A send of a begun message runs the loop. -/
theorem send_of_begin {begun : LmAirTx} (h : lmAirTxBegin sign tx message = (begun, .ok))
    (emit : Nat → LmAirBlock → LmAirStatus) :
    lmAirTxSend sign emit tx message = sendLoop emit 256 0 begun := by
  rw [lmAirTxSend, h]

/-- A send of a message that is not begun emits nothing. -/
theorem send_of_refused (h : (lmAirTxBegin sign tx message).2 ≠ .ok)
    (emit : Nat → LmAirBlock → LmAirStatus) :
    lmAirTxSend sign emit tx message =
      ((lmAirTxBegin sign tx message).1, (lmAirTxBegin sign tx message).2, []) := by
  unfold lmAirTxSend
  generalize lmAirTxBegin sign tx message = result at h ⊢
  obtain ⟨tx', status⟩ := result
  cases status with
  | ok => exact absurd rfl h
  | _ => rfl

/-- A successful begin is a begun message. -/
theorem begun_of_begin {begun : LmAirTx} (h : lmAirTxBegin sign tx message = (begun, .ok)) :
    Begun sign tx message begun := by
  have houtcome := begin_outcome sign tx message
  rw [h] at houtcome
  cases houtcome with
  | refused hstatus hsame => cases hstatus
  | failed hstatus hphase hprofile hstream hnext => cases hstatus
  | begun hbegun => exact hbegun

/-- A send of at most 32 fragments either emits nothing, or the blocks of a transfer in order. -/
theorem send_outcome (emit : Nat → LmAirBlock → LmAirStatus)
    (hcount : divCeil (envelopeLen message) tx.profile.fragmentPayloadBytes.toNat ≤
      lmAirMaxFragments) :
    ((lmAirTxBegin sign tx message).2 ≠ .ok ∧ lmAirTxSend sign emit tx message =
        ((lmAirTxBegin sign tx message).1, (lmAirTxBegin sign tx message).2, [])) ∨
      ∃ (begun : LmAirTx) (transfer : Transfer) (stop : Nat),
        lmAirTxBegin sign tx message = (begun, .ok) ∧ transfer.profile = tx.profile ∧
        transfer.streamId = tx.streamId ∧
        transfer.sequence = tx.nextSequence ∧ transfer.message = message ∧
        Signs sign message transfer.signature ∧
        SendOutcome emit begun transfer 0 stop (lmAirTxSend sign emit tx message).1
          (lmAirTxSend sign emit tx message).2.1 (lmAirTxSend sign emit tx message).2.2 := by
  by_cases hok : (lmAirTxBegin sign tx message).2 = .ok
  · have hbegin : lmAirTxBegin sign tx message = ((lmAirTxBegin sign tx message).1, .ok) :=
      Prod.ext rfl hok
    have hbegun := begun_of_begin hbegin
    obtain ⟨transfer, hprofile, hstream, hsequence, hmessage, hsigns, hsends⟩ := hbegun.sends hcount
    have hfuel : transfer.count - 0 ≤ 256 :=
      Nat.le_trans (Nat.sub_le _ _) (Nat.le_trans transfer.count_le_max (by decide))
    obtain ⟨stop, hsend⟩ := send_loop_outcome emit hsends hfuel 0
    rw [← send_of_begin hbegin] at hsend
    exact Or.inr ⟨_, transfer, stop, hbegin, hprofile, hstream, hsequence, hmessage,
      hsigns, hsend⟩
  · exact Or.inl ⟨hok, send_of_refused hok emit⟩

/-- A send succeeds when the message can be begun and the callback never fails. -/
theorem send_ok {emit : Nat → LmAirBlock → LmAirStatus}
    (hcount : divCeil (envelopeLen message) tx.profile.fragmentPayloadBytes.toNat ≤
      lmAirMaxFragments)
    (hbegin : (lmAirTxBegin sign tx message).2 = .ok)
    (hemit : ∀ position block, (emit position block).isError = false) :
    (lmAirTxSend sign emit tx message).2.1 = .ok := by
  rcases @send_outcome sign tx message emit hcount with ⟨hrefused, _⟩ |
    ⟨begun, transfer, stop, _, _, _, _, _, _, houtcome⟩
  · exact absurd hbegin hrefused
  · rcases houtcome.status with ⟨hok, _⟩ | ⟨_, position, block, herror⟩
    · exact hok
    · exact absurd herror (by rw [hemit]; decide)

end

end LatentMesh.AirC
