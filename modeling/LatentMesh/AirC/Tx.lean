import LatentMesh.AirC.Air
import LatentMesh.AirC.Interleaver
import LatentMesh.Lib.Buffer
import LatentMesh.Lib.Bytes

/-!
# The C transmitter

The transmitter of `air.c`: the profile configurations, and the functions that begin, poll and send
a message. A call returns the transmitter after it with its status, and the blocks that it emits. A
transmitter carries the fact that `lm_air_tx_init` accepted its profile.
-/

namespace LatentMesh.AirC

open LatentMesh.Lib

/-! ## Profiles -/

/-- `lm_air_profile_defaults`. -/
def lmAirProfileDefaults (profile : UInt8) : LmAirStatus × Option LmAirProfileConfig :=
  if 0x0f < profile then (.errArgument, none)
  else
    let config (fragmentPayloadBytes useFec interleaveRows : UInt8) :=
      (LmAirStatus.ok, some ⟨profile, fragmentPayloadBytes, useFec, interleaveRows⟩)
    match profile with
    | 0 => config 240 0 0
    | 1 => config 180 0 0
    | 2 => config 224 1 8
    | 3 => config 64 1 16
    | 4 => config 128 1 16
    | 5 => config 160 1 16
    | 6 => config 96 1 16
    | 7 => config 160 1 8
    | 8 => config 240 0 0
    | 9 => config 211 0 0
    | _ => (.errFormat, none)

/-- `valid_profile_config`. -/
def validProfileConfig (profile : LmAirProfileConfig) : Bool :=
  if lmAirProfileMeshtastic < profile.profile ∨ profile.fragmentPayloadBytes = 0 ∨
      lmAirMaxFramePayload < profile.fragmentPayloadBytes.toNat ∨ 1 < profile.useFec ∨
      64 < profile.interleaveRows then false
  else if profile.interleaveRows = 1 then false
  else true

/-- The profiles that `valid_profile_config` accepts. -/
theorem valid_profile_config_iff {profile : LmAirProfileConfig} :
    validProfileConfig profile = true ↔
      profile.profile ≤ lmAirProfileMeshtastic ∧ profile.fragmentPayloadBytes ≠ 0 ∧
      profile.fragmentPayloadBytes.toNat ≤ lmAirMaxFramePayload ∧ profile.useFec ≤ 1 ∧
      profile.interleaveRows ≤ 64 ∧ profile.interleaveRows ≠ 1 := by
  unfold validProfileConfig
  simp only [ite_eq_iff, Bool.false_eq_true, and_false, false_or, and_true, not_or,
    UInt8.not_lt, Nat.not_lt, and_assoc, ne_eq]

/-- Every default configuration is a valid one. -/
theorem profile_defaults_valid : ∀ profile, ∀ config ∈ (lmAirProfileDefaults profile).2,
    validProfileConfig config = true := by
  rw [byte_forall_iff]
  decide +kernel

/-! ## State -/

/-- `lm_air_tx_phase_t`. -/
inductive LmAirTxPhase where
  | idle
  | emitting
  | done
  | failed
  deriving DecidableEq, Repr

/-- `lm_air_tx_t` with a profile that `lm_air_tx_init` accepts. -/
structure LmAirTx where
  profile : LmAirProfileConfig
  streamId : UInt16
  nextSequence : UInt16
  activeSequence : UInt16
  fragmentCount : UInt8
  fragmentIndex : UInt8
  classId : UInt8
  priority : UInt8
  stateTag : UInt16
  envelopeLen : UInt16
  phase : LmAirTxPhase
  envelope : List UInt8
  envelope_size : envelope.length = lmAirMaxAssembledBytes
  profile_valid : validProfileConfig profile = true

/-- The buffer for the envelope has a fixed length. -/
theorem fresh_envelope_length :
    (List.replicate lmAirMaxAssembledBytes (0 : UInt8)).length = lmAirMaxAssembledBytes :=
  List.length_replicate

/-- The transmitter that `lm_air_tx_init` sets up. -/
def LmAirTx.fresh (streamId initialSequence : UInt16) (profile : LmAirProfileConfig)
    (h : validProfileConfig profile = true) : LmAirTx where
  profile := profile
  streamId := streamId
  nextSequence := initialSequence
  activeSequence := 0
  fragmentCount := 0
  fragmentIndex := 0
  classId := 0
  priority := 0
  stateTag := 0
  envelopeLen := 0
  phase := .idle
  envelope := List.replicate lmAirMaxAssembledBytes 0
  envelope_size := fresh_envelope_length
  profile_valid := h

/-- `lm_air_tx_init`. -/
def lmAirTxInit (streamId initialSequence : UInt16) (profile : LmAirProfileConfig) :
    LmAirStatus × Option LmAirTx :=
  if h : validProfileConfig profile = true then
    (.ok, some (.fresh streamId initialSequence profile h))
  else (.errArgument, none)

/-- `crypto.sign` as it answers during one call: zero or an error, and the signature it writes. -/
abbrev LmAirSign := List UInt8 → Int × Vector UInt8 lmAirSignatureBytes

/-! ## Beginning a message -/

/-- The header that `lm_air_tx_begin` writes. -/
def semanticHeader (message : LmAirMessage) (signatureLen : UInt8) : List UInt8 :=
  [0x4c, 0x4d, 0x53, 0x31, lmAirVersion,
    if message.authenticated ≠ 0 then lmAirSemanticFlagAuth else 0, message.classId,
    message.priority] ++
  putU32Be message.sourceId ++ putU32Be message.epoch ++ putU32Be message.messageId ++
  putU64Be message.logicalSequence ++ putU16Be message.bodyLen ++ message.stateHash.toList ++
  [signatureLen, 0]

/-- `signature_len` of `lm_air_tx_begin`. -/
def signatureLen (message : LmAirMessage) : UInt8 :=
  if message.authenticated ≠ 0 then UInt8.ofNat lmAirSignatureBytes else 0

/-- `canonical_len` of `lm_air_tx_begin`. -/
def canonicalLen (message : LmAirMessage) : Nat :=
  lmAirSemanticHeaderBytes + message.body.length

/-- The call of `crypto.sign` in `lm_air_tx_begin`: its answer, and the envelope with the signature
after the signed bytes. -/
def signEnvelope (sign : Option LmAirSign) (message : LmAirMessage) (envelope : List UInt8) :
    Int × List UInt8 :=
  match sign with
  | some sign =>
      if signatureLen message ≠ 0 then
        let (result, signature) := sign (readAt envelope 0 (canonicalLen message))
        (result, writeAt envelope (canonicalLen message) signature.toList)
      else (0, envelope)
  | none => (0, envelope)

/-- The envelope that `lm_air_tx_begin` writes over the old one, and the answer of `crypto.sign`. -/
def writeEnvelope (sign : Option LmAirSign) (message : LmAirMessage) (envelope : List UInt8) :
    Int × List UInt8 :=
  signEnvelope sign message
    (writeAt envelope 0 (semanticHeader message (signatureLen message) ++ message.body))

/-- Writing the envelope keeps the length of the buffer. -/
theorem write_envelope_length (sign : Option LmAirSign) (message : LmAirMessage)
    (envelope : List UInt8) : (writeEnvelope sign message envelope).2.length = envelope.length := by
  unfold writeEnvelope signEnvelope
  split
  · split
    · simp
    · simp
  · simp

/-- `lm_air_tx_begin`. -/
def lmAirTxBegin (sign : Option LmAirSign) (tx : LmAirTx) (message : LmAirMessage) :
    LmAirTx × LmAirStatus :=
  if lmAirClassDiagnostic < message.classId ∨ 0x0f < message.priority then (tx, .errArgument)
  else if tx.phase = .emitting then (tx, .errState)
  else if message.authenticated ≠ 0 ∧ sign = none then ({ tx with phase := .failed }, .errAuth)
  else
    let envelopeLen := lmAirSemanticHeaderBytes + message.body.length +
      (signatureLen message).toNat
    if lmAirMaxAssembledBytes < envelopeLen then (tx, .errCapacity)
    else
      let written := writeEnvelope sign message tx.envelope
      let tx := { tx with
        envelope := written.2
        envelope_size := (write_envelope_length sign message tx.envelope).trans tx.envelope_size }
      if written.1 ≠ 0 then ({ tx with phase := .failed }, .errAuth)
      else
        let payloadBytes := tx.profile.fragmentPayloadBytes.toNat
        let tx := { tx with
          envelopeLen := UInt16.ofNat envelopeLen
          activeSequence := tx.nextSequence
          fragmentCount := UInt8.ofNat ((envelopeLen + payloadBytes - 1) / payloadBytes) }
        if tx.fragmentCount = 0 ∨ lmAirMaxFragments < tx.fragmentCount.toNat then
          ({ tx with phase := .failed }, .errCapacity)
        else
          ({ tx with
            fragmentIndex := 0
            classId := message.classId
            priority := message.priority
            stateTag := getU16Be message.stateHash.toList
            phase := .emitting }, .ok)

/-! ## Polling -/

/-- The frame that `lm_air_tx_poll` builds. -/
def LmAirTx.frame (tx : LmAirTx) : LmAirFrame :=
  let payloadBytes := tx.profile.fragmentPayloadBytes.toNat
  let offset := tx.fragmentIndex.toNat * payloadBytes
  let remaining := tx.envelopeLen.toNat - offset
  let fragmentLen := if remaining < payloadBytes then remaining else payloadBytes
  { profile := tx.profile.profile
    flags := (if tx.profile.useFec ≠ 0 then lmAirFlagFec else 0) |||
      (if tx.envelope.getD 5 0 &&& lmAirSemanticFlagAuth ≠ 0 then lmAirFlagAuthenticated else 0)
    streamId := tx.streamId
    sequence := tx.activeSequence
    fragmentIndex := tx.fragmentIndex
    fragmentCount := tx.fragmentCount
    classId := tx.classId
    priority := tx.priority
    stateTag := tx.stateTag
    payloadLen := UInt8.ofNat fragmentLen
    payload := payloadArray (readAt tx.envelope offset fragmentLen)
    payload_size := payload_array_length _ }

/-- A coding buffer or the data of a block before it is written. -/
def codedBuffer : List UInt8 := List.replicate lmAirFecMaxCodedBytes 0

/-- The coded bits of a raw frame: the status, the buffer and the number of bits. -/
def codeRaw (profile : LmAirProfileConfig) (raw : List UInt8) : LmAirStatus × List UInt8 × Nat :=
  if profile.useFec ≠ 0 then lmAirFecEncode raw codedBuffer
  else (.ok, writeAt codedBuffer 0 raw, raw.length * 8)

/-- The data of a block: the status and the bytes. -/
def blockData (profile : LmAirProfileConfig) (coded : List UInt8) (bitLen : Nat) :
    LmAirStatus × List UInt8 :=
  if profile.interleaveRows ≠ 0 then
    lmAirInterleaveBits coded bitLen codedBuffer profile.interleaveRows
  else (.ok, writeAt codedBuffer 0 (coded.take ((bitLen + 7) / 8)))

/-- The data of a block have a fixed length. -/
theorem block_data_length (profile : LmAirProfileConfig) (coded : List UInt8) (bitLen : Nat) :
    (blockData profile coded bitLen).2.length = lmAirFecMaxCodedBytes := by
  have hbuffer : codedBuffer.length = lmAirFecMaxCodedBytes := List.length_replicate
  unfold blockData
  split
  · rw [lm_air_interleave_bits_length, hbuffer]
  · rw [write_at_length, hbuffer]

/-- The block that `lm_air_tx_poll` writes for a raw frame. -/
def encodeBlock (profile : LmAirProfileConfig) (raw : List UInt8) :
    LmAirStatus × Option LmAirBlock :=
  let (status, coded, bitLen) := codeRaw profile raw
  if status ≠ .ok then (status, none)
  else
    let status := (blockData profile coded bitLen).1
    if status ≠ .ok then (status, none)
    else
      (.ok, some
        { rawLen := UInt16.ofNat raw.length
          bitLen := UInt16.ofNat bitLen
          fec := profile.useFec
          interleaveRows := profile.interleaveRows
          data := (blockData profile coded bitLen).2
          data_size := block_data_length profile coded bitLen })

/-- `lm_air_tx_poll`: the transmitter, the status, and the block when one is written. The payload of
the frame is within its array, so the encoder reads nothing past it. -/
def lmAirTxPoll (tx : LmAirTx) : LmAirTx × LmAirStatus × Option LmAirBlock :=
  if tx.phase ≠ .emitting then
    (tx, if tx.phase = .done then .complete else .errState, none)
  else
    let (status, raw) := lmAirFrameEncode tx.frame (fun _ => 0) lmAirMaxWireBytes
    if status ≠ .ok then ({ tx with phase := .failed }, status, none)
    else
      match encodeBlock tx.profile raw with
      | (status, none) => ({ tx with phase := .failed }, status, none)
      | (_, some block) =>
          let tx := { tx with fragmentIndex := tx.fragmentIndex + 1 }
          if tx.fragmentIndex = tx.fragmentCount then
            ({ tx with phase := .done, nextSequence := tx.nextSequence + 1 }, .complete, some block)
          else (tx, .more, some block)

/-! ## Sending -/

/-- The loop of `lm_air_tx_send`: the transmitter, the status and the blocks that are emitted. The
callback sees the position of a block. -/
def sendLoop (emit : Nat → LmAirBlock → LmAirStatus) :
    Nat → Nat → LmAirTx → LmAirTx × LmAirStatus × List LmAirBlock
  | 0, _, tx => (tx, .more, [])
  | fuel + 1, position, tx =>
      match lmAirTxPoll tx with
      | (tx, status, none) => (tx, status, [])
      | (tx, status, some block) =>
          if (emit position block).isError then
            ({ tx with phase := .failed }, .errCallback, [block])
          else if status ≠ .more then (tx, .ok, [block])
          else
            let (tx, status, blocks) := sendLoop emit fuel (position + 1) tx
            (tx, status, block :: blocks)

/-- `lm_air_tx_send`. The loop ends within 256 iterations, because every iteration but the last one
advances the 8-bit fragment index. -/
def lmAirTxSend (sign : Option LmAirSign) (emit : Nat → LmAirBlock → LmAirStatus) (tx : LmAirTx)
    (message : LmAirMessage) : LmAirTx × LmAirStatus × List LmAirBlock :=
  match lmAirTxBegin sign tx message with
  | (tx, .ok) => sendLoop emit 256 0 tx
  | (tx, status) => (tx, status, [])

end LatentMesh.AirC
