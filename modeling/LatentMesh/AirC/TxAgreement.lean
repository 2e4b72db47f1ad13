import LatentMesh.AirC.EnvelopeAgreement
import LatentMesh.AirC.Fragmentation
import LatentMesh.AirCore.Reassembly

/-!
# The C transmitter and the Rust fragmenter agree

Without FEC and interleaving a block carries its raw frame as it is. The raw frames that the polls
of a message emit (`PollsRaw`) are, in order, the encodings of the frames that `fragment_message`
returns for the encoded envelope: see `transmitters_agree`.
-/

namespace LatentMesh.AirC

open LatentMesh.Lib LatentMesh.AirCore

/-! ## Raw frames -/

/-- The raw frame in a block that is neither coded nor interleaved. -/
def LmAirBlock.raw (block : LmAirBlock) : List UInt8 := block.data.take block.rawLen.toNat

/-- The polls from a transmitter up to `LM_AIR_COMPLETE` and the raw frames of their blocks. -/
inductive PollsRaw : LmAirTx → List (List UInt8) → Prop where
  | last {tx tx' : LmAirTx} {block : LmAirBlock}
      (hpoll : lmAirTxPoll tx = (tx', .complete, some block)) : PollsRaw tx [block.raw]
  | more {tx tx' : LmAirTx} {block : LmAirBlock} {rest : List (List UInt8)}
      (hpoll : lmAirTxPoll tx = (tx', .more, some block)) (hrest : PollsRaw tx' rest) :
      PollsRaw tx (block.raw :: rest)

/-- A block says how it is coded. -/
theorem poll_block_coding {tx tx' : LmAirTx} {status : LmAirStatus} {block : LmAirBlock}
    (h : lmAirTxPoll tx = (tx', status, some block)) :
    block.fec = tx.profile.useFec ∧ block.interleaveRows = tx.profile.interleaveRows := by
  have hencode : ∀ {raw : List UInt8} {status : LmAirStatus} {block : LmAirBlock},
      encodeBlock tx.profile raw = (status, some block) →
        block.fec = tx.profile.useFec ∧ block.interleaveRows = tx.profile.interleaveRows := by
    intro raw status block hblock
    unfold encodeBlock at hblock
    dsimp only at hblock
    split at hblock
    · cases hblock
    · split at hblock
      · cases hblock
      · obtain rfl := Option.some.inj (Prod.ext_iff.mp hblock).2
        exact ⟨rfl, rfl⟩
  unfold lmAirTxPoll at h
  split at h
  · cases h
  · dsimp only at h
    split at h
    · cases h
    · split at h
      · cases h
      · rename_i hblock
        split at h
        · cases h
          exact hencode hblock
        · cases h
          exact hencode hblock

/-- The receiver takes an uncoded block as it is. -/
theorem raw_of_block_bytes {block : LmAirBlock} {wire : List UInt8}
    (h : blockBytes block = .ok wire) (hfec : block.fec = 0) (hrows : block.interleaveRows = 0) :
    block.raw = wire := by
  have hearly : ∀ early, (.error early : Except (LmAirStatus × Bool) (List UInt8)) ≠ .ok wire :=
    fun _ heq => nomatch heq
  unfold blockBytes at h
  simp only [hfec, hrows, ne_eq, not_true_eq_false, if_false] at h
  rw [guard_eq_iff (hearly _), guard_eq_iff (hearly _), guard_eq_iff (hearly _)] at h
  exact Except.ok.inj h.2.2.2

/-! ## Frames -/

/-- The bits tell the flags. -/
theorem flags_eq_of_bits {flags other : FrameFlags} (h : flags.bits = other.bits) :
    flags = other := by
  cases flags
  cases other
  cases h
  rfl

/-- A C frame has the fields of one Rust frame only. -/
theorem Agrees.unique {frame : LmAirFrame} {rust rust' : SparseRadioFrame}
    (h : Agrees frame rust) (h' : Agrees frame rust') : rust = rust' := by
  have hprofile : rust.profile = rust'.profile := Except.ok.inj
    ((WireProfile.try_from_eq_ok_iff.mpr (h.profile.symm.trans h'.profile)).symm.trans
      (WireProfile.try_from_eq_ok_iff.mpr rfl))
  have hclass : rust.semanticClass = rust'.semanticClass := Except.ok.inj
    ((SemanticClass.try_from_eq_ok_iff.mpr (h.classId.symm.trans h'.classId)).symm.trans
      (SemanticClass.try_from_eq_ok_iff.mpr rfl))
  have hflags : rust.flags = rust'.flags := flags_eq_of_bits (h.flags.symm.trans h'.flags)
  cases rust
  cases rust'
  exact SparseRadioFrame.mk.injEq .. ▸ ⟨hprofile, hflags, h.streamId.symm.trans h'.streamId,
    h.sequence.symm.trans h'.sequence, h.fragmentIndex.symm.trans h'.fragmentIndex,
    h.fragmentCount.symm.trans h'.fragmentCount, hclass, h.priority.symm.trans h'.priority,
    h.stateTag.symm.trans h'.stateTag, h.payload.symm.trans h'.payload⟩

/-- The metadata of the Rust fragments of a message that a transmitter begins. -/
structure SameMeta (tx : LmAirTx) (envelope : SemanticEnvelope) (info : FragmentMeta) : Prop where
  profile : info.profile.toU8 = tx.profile.profile
  flags : info.flags =
    if envelope.signature.isSome then FrameFlags.signedEnvelope else FrameFlags.none
  streamId : info.streamId = tx.streamId
  sequence : info.sequence = tx.nextSequence
  semanticClass : info.semanticClass = envelope.semanticClass
  priority : info.priority = envelope.priority
  stateTag : info.stateTag = stateHashTag envelope.stateHash

/-- Every transmitter has metadata of the sibling. -/
theorem exists_same_meta (tx : LmAirTx) (envelope : SemanticEnvelope) :
    ∃ info, SameMeta tx envelope info := by
  obtain ⟨profile, hprofile⟩ :=
    exists_wire_profile (valid_profile_config_iff.mp tx.profile_valid).1
  exact ⟨⟨profile, _, _, _, _, _, _⟩, hprofile, rfl, rfl, rfl, rfl, rfl, rfl⟩

section

variable {tx : LmAirTx} {transfer : Transfer} {envelope : SemanticEnvelope} {info : FragmentMeta}
  {index : Nat}

/-- A transfer sends a message of a transmitter. -/
structure Transfer.IsOf (transfer : Transfer) (tx : LmAirTx) (envelope : SemanticEnvelope) :
    Prop where
  profile : transfer.profile = tx.profile
  streamId : transfer.streamId = tx.streamId
  sequence : transfer.sequence = tx.nextSequence
  message : SameMessage transfer.message envelope
  signature : transfer.signature = envelope.signatureBytes

/-- The envelope of the transfer is the encoding. -/
theorem Transfer.IsOf.envelope_eq (h : transfer.IsOf tx envelope) :
    transfer.envelope = envelope.wire := by
  rw [Transfer.envelope, h.signature, h.message.envelope_bytes_eq]

/-- Both sides give the frames the same flags. -/
theorem Transfer.IsOf.flags_eq (h : transfer.IsOf tx envelope) (hfec : tx.profile.useFec = 0)
    (hmeta : SameMeta tx envelope info) : transfer.flags <<< 4 = info.flags.bits := by
  rw [Transfer.flags, h.profile, hfec, hmeta.flags,
    if_congr h.message.authenticated rfl rfl]
  by_cases hsigned : envelope.signature.isSome = true
  · rw [if_pos hsigned, if_pos hsigned]
    decide
  · rw [if_neg hsigned, if_neg hsigned]
    decide

/-- The frames of a fragment agree. -/
theorem Transfer.IsOf.agrees (h : transfer.IsOf tx envelope) (hfec : tx.profile.useFec = 0)
    (hmeta : SameMeta tx envelope info) (hindex : index < transfer.count) :
    Agrees (transfer.frame index)
      (info.frame (UInt8.ofNat index) (UInt8.ofNat transfer.count) (transfer.fragment index)) where
  profile := by
    change transfer.profile.profile = info.profile.toU8
    rw [h.profile, hmeta.profile]
  flags_nibble := (validate_frame_eq_ok_iff.mp (transfer.frame_valid hindex)).1.2.1
  flags := h.flags_eq hfec hmeta
  streamId := h.streamId.trans hmeta.streamId.symm
  sequence := h.sequence.trans hmeta.sequence.symm
  fragmentIndex := rfl
  fragmentCount := rfl
  classId := by
    change transfer.message.classId = info.semanticClass.toU8
    rw [h.message.classId, hmeta.semanticClass]
  priority := h.message.priority.trans hmeta.priority.symm
  stateTag := by
    change getU16Be transfer.message.stateHash.toList = info.stateTag
    rw [get_state_tag, h.message.stateHash, hmeta.stateTag]
  payloadLen := transfer.payload_len_to_nat index
  payload := transfer.frame_payload index

/-- An uncoded block that carries the frame of a fragment is the encoding of the Rust frame. -/
theorem Transfer.IsOf.raw_eq (h : transfer.IsOf tx envelope) (hfec : tx.profile.useFec = 0)
    (hmeta : SameMeta tx envelope info) (hindex : index < transfer.count) {block : LmAirBlock}
    (hcarries : block.Carries (transfer.frame index)) (hplain : block.fec = 0)
    (hrows : block.interleaveRows = 0) :
    (info.frame (UInt8.ofNat index) (UInt8.ofNat transfer.count)
      (transfer.fragment index)).encode = .ok block.raw := by
  obtain ⟨wire, hbytes, hdecode, -⟩ := hcarries
  obtain ⟨rust, hrust⟩ := decode_of_lm_air_decode (congrArg Prod.fst hdecode)
  obtain ⟨frame, hframe, hagrees, -⟩ := lm_air_decode_of_decode hrust
  rw [hdecode] at hframe
  cases hframe
  rw [raw_of_block_bytes hbytes hplain hrows, (h.agrees hfec hmeta hindex).unique hagrees]
  exact SparseRadioFrame.decode_eq_ok_iff.mp hrust

/-- The polls of a transfer emit the encodings of its remaining frames. -/
theorem Transfer.IsOf.polls_raw (h : transfer.IsOf tx envelope) (hfec : tx.profile.useFec = 0)
    (hrows : tx.profile.interleaveRows = 0) (hmeta : SameMeta tx envelope info)
    {current : LmAirTx} (hsends : current.Sends transfer index) :
    ∃ raws, PollsRaw current raws ∧
      ((List.range' index (transfer.count - index)).map fun i =>
        (info.frame (UInt8.ofNat i) (UInt8.ofNat transfer.count) (transfer.fragment i)).encode) =
          raws.map .ok := by
  obtain ⟨rest, hrest⟩ : ∃ rest, transfer.count = index + 1 + rest :=
    ⟨_, (Nat.add_sub_cancel' hsends.index_lt).symm⟩
  have hcount : transfer.count - index = rest + 1 := by omega
  rw [hcount]
  clear hcount
  induction rest generalizing current index with
  | zero =>
      obtain ⟨block, hcarries, hpoll⟩ := hsends.poll
      rw [if_pos hrest.symm] at hpoll
      obtain ⟨hplain, hstraight⟩ := poll_block_coding hpoll
      rw [hsends.profile, h.profile] at hplain hstraight
      have hraw := h.raw_eq hfec hmeta hsends.index_lt hcarries (hplain.trans hfec)
        (hstraight.trans hrows)
      exact ⟨[block.raw], .last hpoll, congrArg (fun encoded => [encoded]) hraw⟩
  | succ rest ih =>
      have hmore : index + 1 ≠ transfer.count := by omega
      obtain ⟨block, hcarries, hpoll⟩ := hsends.poll
      rw [if_neg hmore] at hpoll
      obtain ⟨hplain, hstraight⟩ := poll_block_coding hpoll
      rw [hsends.profile, h.profile] at hplain hstraight
      have hraw := h.raw_eq hfec hmeta hsends.index_lt hcarries (hplain.trans hfec)
        (hstraight.trans hrows)
      obtain ⟨raws, hpolls, hraws⟩ := ih (hsends.advance hmore) (by omega)
      refine ⟨block.raw :: raws, .more hpoll hpolls, ?_⟩
      rw [List.range'_succ, List.map_cons, List.map_cons, hraw, hraws]

/-- The frames that `fragment_message` returns for the encoding. -/
theorem Transfer.IsOf.fragment_message (h : transfer.IsOf tx envelope) (info : FragmentMeta) :
    fragmentMessage info envelope.wire (transfer.payloadBytes + 16) =
      .ok ((List.range transfer.count).map fun i =>
        info.frame (UInt8.ofNat i) (UInt8.ofNat transfer.count) (transfer.fragment i)) := by
  have hsize : transfer.payloadBytes + 16 - frameMinBytes = transfer.payloadBytes :=
    Nat.add_sub_cancel ..
  have hpos := transfer.payload_bytes_pos
  have hle := transfer.payload_bytes_le
  have hcount := transfer.count_le_max
  rw [Transfer.count, div_ceil_le_iff hpos, h.envelope_eq] at hcount
  have hmin : frameMinBytes = 16 := rfl
  have hmax : frameMaxBytes = 256 := rfl
  rw [lmAirMaxFramePayload] at hle
  obtain ⟨frames, hframes⟩ := @fragment_message_fits info envelope.wire
    (transfer.payloadBytes + 16) (by omega) (by omega) (by rw [hsize]; exact hcount)
  have hlength : envelope.wire.length = 48 + envelope.body.length + envelope.signatureLen :=
    envelope.wire_length
  have hnonempty : ¬ envelope.wire.isEmpty = true := by
    rw [List.isEmpty_iff_length_eq_zero]
    omega
  rw [hframes, (fragment_message_eq_ok hframes).1, fragmentFrames, fragmentPayloads,
    if_neg hnonempty, hsize, chunks_length, ← h.envelope_eq]
  refine congrArg Except.ok (List.ext_getElem ?_ fun i hi hi' => ?_)
  · rw [List.length_mapIdx, chunks_length, List.length_map, List.length_range, Transfer.count]
  · simp only [chunks, List.getElem_mapIdx, List.getElem_map, List.getElem_range]
    rfl

end

/-! ## Agreement -/

/-- A message has one signature. -/
theorem Signs.unique {sign : Option LmAirSign} {message : LmAirMessage}
    {signature other : List UInt8} (h : Signs sign message signature)
    (h' : Signs sign message other) : signature = other := by
  cases h with
  | unsigned hplain =>
      cases h' with
      | unsigned => rfl
      | signed hflag => exact absurd hplain hflag
  | signed hflag hsign hanswer =>
      cases h' with
      | unsigned hplain => exact absurd hplain hflag
      | signed _ hsign' hanswer' =>
          obtain rfl := Option.some.inj (hsign.symm.trans hsign')
          rw [hanswer] at hanswer'
          cases hanswer'
          rfl

/-- The two sides refuse the same messages: those whose priority does not fit in four bits. -/
theorem begins_iff_encodes {sign : Option LmAirSign} {tx : LmAirTx} {message : LmAirMessage}
    {envelope : SemanticEnvelope} (hphase : tx.phase ≠ .emitting)
    (hmessage : SameMessage message envelope)
    (hsigns : Signs sign message envelope.signatureBytes)
    (hcount : divCeil (envelopeLen message) tx.profile.fragmentPayloadBytes.toNat ≤ 32) :
    (lmAirTxBegin sign tx message).2 = .ok ↔ ∃ bytes, envelope.encode = .ok bytes := by
  have hpos := payload_bytes_pos tx
  have hsize := (valid_profile_config_iff.mp tx.profile_valid).2.2.1
  have hlen : envelopeLen message = envelope.encodedLen := by
    rw [envelopeLen, hmessage.signature_len, canonicalLen, hmessage.body,
      SemanticEnvelope.encodedLen]
    rfl
  have hfits : envelopeLen message ≤ lmAirMaxAssembledBytes := by
    have hle := (div_ceil_le_iff hpos).mp hcount
    rw [lmAirMaxFramePayload] at hsize
    rw [lmAirMaxAssembledBytes, lmAirMaxFramePayload, lmAirMaxFragments]
    omega
  have hcountPos : 0 < divCeil (envelopeLen message) tx.profile.fragmentPayloadBytes.toNat := by
    refine div_ceil_pos hpos ?_
    rw [envelopeLen, canonicalLen, lmAirSemanticHeaderBytes]
    omega
  have hbyte : (countByte tx message).toNat =
      divCeil (envelopeLen message) tx.profile.fragmentPayloadBytes.toNat :=
    UInt8.toNat_ofNat_of_lt' (Nat.lt_of_le_of_lt hcount (by decide))
  have hclass : message.classId ≤ lmAirClassDiagnostic := by
    rw [hmessage.classId]
    cases envelope.semanticClass <;> decide
  have hsigned : message.authenticated ≠ 0 →
      ∃ hook, sign = some hook ∧ (hook (canonicalBytes message)).1 = 0 := by
    intro hflag
    generalize envelope.signatureBytes = signature at hsigns
    cases hsigns with
    | unsigned hplain => exact absurd hplain hflag
    | signed _ hsign hanswer => exact ⟨_, hsign, by rw [hanswer]⟩
  rw [begin_ok_iff, hbyte]
  constructor
  · rintro ⟨⟨-, hpriority, -, -, -⟩, -, -⟩
    refine ⟨_, SemanticEnvelope.encode_eq_ok_iff.mpr ⟨⟨?_, ?_, ?_⟩, rfl⟩⟩
    · rw [← hmessage.priority]
      exact hpriority
    · rw [← hmessage.body]
      exact Nat.le_of_lt_succ message.body_lt
    · rw [← hlen]
      exact hfits
  · rintro ⟨bytes, hencode⟩
    obtain ⟨hvalid, -⟩ := SemanticEnvelope.encode_eq_ok_iff.mp hencode
    refine ⟨⟨hclass, ?_, hphase, hsigned, hfits⟩, fun hzero => ?_, hcount⟩
    · rw [hmessage.priority]
      exact hvalid.priority
    · rw [hzero] at hbyte
      exact absurd hbyte (Nat.ne_of_lt hcountPos)

/-- For a message with the fields of an envelope, whose signature, if any, is the one that the sign
hook writes: a transmitter without FEC and interleaving that is not in the middle of another message
begins a message of at most 32 fragments exactly when the envelope is encoded. Then
`fragment_message` cuts the encoding with the corresponding metadata, and the polls emit the
encodings of its frames, in order. -/
theorem transmitters_agree (sign : Option LmAirSign) (tx : LmAirTx) (message : LmAirMessage)
    (envelope : SemanticEnvelope) (hphase : tx.phase ≠ .emitting) (hfec : tx.profile.useFec = 0)
    (hrows : tx.profile.interleaveRows = 0) (hmessage : SameMessage message envelope)
    (hsigns : Signs sign message envelope.signatureBytes)
    (hcount : divCeil (envelopeLen message) tx.profile.fragmentPayloadBytes.toNat ≤ 32) :
    ((lmAirTxBegin sign tx message).2 = .ok ↔ ∃ bytes, envelope.encode = .ok bytes) ∧
    (∃ info, SameMeta tx envelope info) ∧
    ∀ bytes, envelope.encode = .ok bytes → ∀ info, SameMeta tx envelope info →
      ∃ frames raws,
        fragmentMessage info bytes (tx.profile.fragmentPayloadBytes.toNat + 16) = .ok frames ∧
        PollsRaw (lmAirTxBegin sign tx message).1 raws ∧
        frames.map SparseRadioFrame.encode = raws.map .ok := by
  have hbegin := begins_iff_encodes hphase hmessage hsigns hcount
  refine ⟨hbegin, exists_same_meta tx envelope, fun bytes hencode info hmeta => ?_⟩
  have hok := hbegin.mpr ⟨bytes, hencode⟩
  have hbytes : bytes = envelope.wire := (SemanticEnvelope.encode_eq_ok_iff.mp hencode).2
  have hbegun := begun_of_begin (Prod.ext rfl hok :
    lmAirTxBegin sign tx message = ((lmAirTxBegin sign tx message).1, .ok))
  obtain ⟨transfer, hprofile, hstream, hsequence, rfl, htransfer, hsends⟩ := hbegun.sends hcount
  have hof : transfer.IsOf tx envelope :=
    ⟨hprofile, hstream, hsequence, hmessage, htransfer.unique hsigns⟩
  obtain ⟨raws, hpolls, hraws⟩ := hof.polls_raw hfec hrows hmeta hsends
  have hframes := hof.fragment_message info
  rw [Transfer.payloadBytes, hprofile, ← hbytes] at hframes
  refine ⟨_, raws, hframes, hpolls, ?_⟩
  rw [← hraws, List.map_map, Nat.sub_zero, List.range_eq_range']
  rfl

/-- A telemetry envelope without a body. -/
def plainEnvelope : SemanticEnvelope :=
  { semanticClass := .telemetry, priority := 5, sourceId := 1, epoch := 2, messageId := 3
    logicalSequence := 4, stateHash := Vector.replicate 16 6, body := [], signature := none }

theorem plain_body_lt : ([] : List UInt8).length < 2 ^ 16 := by decide

/-- The C message of the envelope. -/
def plainMessage : LmAirMessage :=
  ⟨1, 2, 3, 4, 0, 5, Vector.replicate 16 6, [], 0, plain_body_lt⟩

/-- A transmitter that sends 16 bytes of the envelope in a frame. -/
def plainTx : LmAirTx := .fresh 7 9 ⟨0, 16, 0, 0⟩ rfl

/-- Both transmitters cut an empty unsigned message alike. -/
theorem transmitters_agree_plain :
    ∃ info frames raws, SameMeta plainTx plainEnvelope info ∧
      fragmentMessage info plainEnvelope.wire 32 = .ok frames ∧
      PollsRaw (lmAirTxBegin none plainTx plainMessage).1 raws ∧
      frames.map SparseRadioFrame.encode = raws.map .ok := by
  have hmessage : SameMessage plainMessage plainEnvelope :=
    ⟨rfl, rfl, rfl, rfl, rfl, rfl, rfl, rfl, by decide⟩
  obtain ⟨-, ⟨info, hmeta⟩, hagree⟩ := transmitters_agree none plainTx plainMessage plainEnvelope
    (by decide) rfl rfl hmessage (.unsigned rfl) (by decide)
  have hencode : plainEnvelope.encode = .ok plainEnvelope.wire := by decide +kernel
  obtain ⟨frames, raws, hframes, hpolls, hraws⟩ := hagree _ hencode info hmeta
  exact ⟨info, frames, raws, hmeta, hframes, hpolls, hraws⟩

end LatentMesh.AirC
