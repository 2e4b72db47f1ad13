import Mathlib.Data.Finset.Max
import LatentMesh.AirC.Fragmentation
import LatentMesh.AirC.Loopback
import LatentMesh.AirC.Origin
import LatentMesh.Lib.Transition

/-!
# Message integrity over a link

A transmitter sends messages, and a link hands the emitted blocks to a receiver. It may lose,
reorder, delay and repeat them (`LinkStep`). The sequence number advances only with the last block
of a message, so a send that follows an aborted one uses its number again. What is delivered was
given to the transmitter as long as such a send cannot be mixed with the aborted one (`SafeSend`,
`delivered_were_given`). Otherwise the receiver may deliver a mixture (`aborted_send_mixes`).
-/

namespace LatentMesh.AirC

open LatentMesh.Lib LatentMesh.AirCore

/-! ## The link -/

/-- A call of `lm_air_tx_send`: the sequence number that is next, the sign hook, the message, and
how many blocks were emitted. -/
structure SendRecord where
  sequence : UInt16
  sign : Option LmAirSign
  message : LmAirMessage
  blocks : Nat

/-- One transmitter, one receiver and the link between them: the calls of `lm_air_tx_send` so far,
the blocks they emitted, and the messages that the receiver handed over. -/
structure LinkState where
  tx : LmAirTx
  rx : LmAirRx
  sends : List SendRecord
  emitted : List LmAirBlock
  delivered : List LmAirMessage

namespace LinkState

/-- A transmitter and a new receiver, before any call. -/
def start (tx : LmAirTx) : LinkState := ⟨tx, lmAirRxInit, [], [], []⟩

/-- The messages given to `lm_air_tx_send`. -/
def given (state : LinkState) : List LmAirMessage := state.sends.map SendRecord.message

/-- The payload bytes of a frame. -/
def payloadBytes (state : LinkState) : Nat := state.tx.profile.fragmentPayloadBytes.toNat

/-- The next call of `lm_air_tx_send`, with the number of blocks that it emits. -/
def record (state : LinkState) (sign : Option LmAirSign) (message : LmAirMessage) (blocks : Nat) :
    SendRecord :=
  ⟨state.tx.nextSequence, sign, message, blocks⟩

/-- A call of `lm_air_tx_send`. -/
def send (state : LinkState) (sign : Option LmAirSign) (emit : Nat → LmAirBlock → LmAirStatus)
    (message : LmAirMessage) : LinkState :=
  let (tx, _, blocks) := lmAirTxSend sign emit state.tx message
  { state with
    tx
    sends := state.sends ++ [state.record sign message blocks.length]
    emitted := state.emitted ++ blocks }

/-- A block arrives at the receiver. -/
def ingest (state : LinkState) (callbacks : LmAirRxCallbacks) (block : LmAirBlock) : LinkState :=
  let (rx, _, delivery) := lmAirRxIngestBlock callbacks state.rx block
  { state with
    rx
    delivered := state.delivered ++ (delivery.map LmAirDelivery.message).toList }

end LinkState

/-- A send of fewer than 32768, of at most 32 fragments, that meets a condition, or the arrival of
an emitted block. An arrival takes no block away, and no block has to arrive. -/
inductive LinkStep (verify : Option (List UInt8 → List UInt8 → Int))
    (Condition : LinkState → Option LmAirSign → LmAirMessage → Prop) :
    LinkState → LinkState → Prop where
  | send {state : LinkState} {sign : Option LmAirSign} {emit : Nat → LmAirBlock → LmAirStatus}
      {message : LmAirMessage} (hfew : state.sends.length + 1 < 32768)
      (hcount : divCeil (envelopeLen message) state.payloadBytes ≤ lmAirMaxFragments)
      (hcondition : Condition state sign message) :
      LinkStep verify Condition state (state.send sign emit message)
  | ingest {state : LinkState} {receive : LmAirMessage → LmAirStatus} {block : LmAirBlock}
      (hblock : block ∈ state.emitted) :
      LinkStep verify Condition state (state.ingest ⟨verify, receive⟩ block)

/-! ## Sends that cannot be mixed -/

/-- The frames of two messages have the fields that the receiver compares in common. -/
structure SameHeader (payloadBytes : Nat) (first second : LmAirMessage) : Prop where
  count : divCeil (envelopeLen first) payloadBytes = divCeil (envelopeLen second) payloadBytes
  signed : first.authenticated ≠ 0 ↔ second.authenticated ≠ 0
  classId : first.classId = second.classId
  priority : first.priority = second.priority
  stateTag : getU16Be first.stateHash.toList = getU16Be second.stateHash.toList

/-- Two unsigned messages have the first fragments in common. -/
def AgreeUpTo (payloadBytes blocks : Nat) (first second : LmAirMessage) : Prop :=
  ∀ i < blocks, chunk payloadBytes (canonicalBytes first) i =
    chunk payloadBytes (canonicalBytes second) i

/-- Two unsigned messages differ in one fragment at most. -/
def DifferOnce (payloadBytes : Nat) (first second : LmAirMessage) : Prop :=
  ∀ i k, chunk payloadBytes (canonicalBytes first) i ≠
      chunk payloadBytes (canonicalBytes second) i →
    chunk payloadBytes (canonicalBytes first) k ≠ chunk payloadBytes (canonicalBytes second) k →
    i = k

/-- A send emitted a fragment under a sequence number. -/
def SendRecord.Emits (record : SendRecord) (payloadBytes : Nat) (sequence : UInt16) (index : Nat)
    (fragment : List UInt8) : Prop :=
  record.sequence = sequence ∧ index < record.blocks ∧
    ∃ signature, Signs record.sign record.message signature ∧
      fragment = chunk payloadBytes (envelopeBytes record.message signature) index

/-- Of all that can be assembled from the fragments that some sends emitted under a sequence number,
one for each index, the verify hook accepts only what is signed for the message of one of them. -/
def Vouches (verify : Option (List UInt8 → List UInt8 → Int)) (payloadBytes : Nat)
    (sequence : UInt16) (sends : List SendRecord) : Prop :=
  ∀ hook, verify = some hook → ∀ (count : Nat) (fragments : Nat → List UInt8),
    (∀ k < count, ∃ record ∈ sends, record.Emits payloadBytes sequence k (fragments k)) →
    ∀ data signature, signature.length = lmAirSignatureBytes →
      (List.range count).flatMap fragments = data ++ signature → hook data signature = 0 →
        ∃ record ∈ sends, data = canonicalBytes record.message

/-- A message may be sent after an earlier send: when the earlier one emitted blocks under the same
sequence number and header, then it is the same message again, or the verify hook tells the mixtures
of signed messages apart, or no mixture of the two unsigned messages is a third message. -/
def SendRecord.Permits (earlier : SendRecord) (payloadBytes : Nat) (vouched : Prop)
    (sequence : UInt16) (message : LmAirMessage) : Prop :=
  0 < earlier.blocks → earlier.sequence = sequence →
    SameHeader payloadBytes earlier.message message →
    earlier.message = message ∨ (message.authenticated ≠ 0 ∧ vouched) ∨
      (message.authenticated = 0 ∧
        (AgreeUpTo payloadBytes earlier.blocks earlier.message message ∨
          DifferOnce payloadBytes earlier.message message))

/-- The authenticated flag is zero or one, and a message that is not refused may be sent after every
earlier send. -/
def SafeSend (verify : Option (List UInt8 → List UInt8 → Int)) (state : LinkState)
    (sign : Option LmAirSign) (message : LmAirMessage) : Prop :=
  message.authenticated ≤ 1 ∧
    (ReachesCount sign state.tx message → ∀ earlier ∈ state.sends,
      earlier.Permits state.payloadBytes
        (Vouches verify state.payloadBytes state.tx.nextSequence
          (state.sends ++ [state.record sign message
            (divCeil (envelopeLen message) state.payloadBytes)]))
        state.tx.nextSequence message)

/-- No mixture of two sends is a third message. -/
def SendRecord.Apart (payloadBytes : Nat) (vouched : Prop) (first second : SendRecord) : Prop :=
  0 < first.blocks → 0 < second.blocks → first.sequence = second.sequence →
    SameHeader payloadBytes first.message second.message →
    first.message = second.message ∨ (second.message.authenticated ≠ 0 ∧ vouched) ∨
      (second.message.authenticated = 0 ∧
        (AgreeUpTo payloadBytes first.blocks first.message second.message ∨
          AgreeUpTo payloadBytes second.blocks first.message second.message ∨
          DifferOnce payloadBytes first.message second.message))

/-! ## The invariant -/

/-- A transfer carries the message of a send. -/
structure SendRecord.Sends (record : SendRecord) (transfer : Transfer) : Prop where
  sequence : transfer.sequence = record.sequence
  message : transfer.message = record.message
  signs : Signs record.sign record.message transfer.signature

namespace LinkState

/-- A transfer of a send, with the number of blocks that the send emitted. -/
def Source (state : LinkState) (transfer : Transfer) (blocks : Nat) : Prop :=
  transfer.profile = state.tx.profile ∧
    ∃ record ∈ state.sends, record.blocks = blocks ∧ record.Sends transfer

/-- All blocks and fragments come from sends that cannot be mixed. -/
structure Sound (verify : Option (List UInt8 → List UInt8 → Int)) (state : LinkState) :
    Prop where
  flag : ∀ record ∈ state.sends, record.message.authenticated ≤ 1
  apart : ∀ (early late : Nat) (first second : SendRecord), early < late →
    state.sends[early]? = some first → state.sends[late]? = some second →
      first.Apart state.payloadBytes
        (Vouches verify state.payloadBytes second.sequence (state.sends.take (late + 1))) second
  emitted : ∀ block ∈ state.emitted, ∃ transfer blocks index, state.Source transfer blocks ∧
    index < blocks ∧ index < transfer.count ∧ block.Carries (transfer.frame index)
  slots : ∀ j : Fin lmAirRxReassemblySlots, (state.rx.slots.get j).ComesFrom state.Source
  delivered : ∀ message ∈ state.delivered, message ∈ state.given

/-- Before any call there is nothing to mix. -/
theorem sound_start (verify : Option (List UInt8 → List UInt8 → Int)) (tx : LmAirTx) :
    (start tx).Sound verify := by
  refine ⟨fun _ h => absurd h List.not_mem_nil, fun _ _ _ _ _ h => (nomatch h),
    fun _ h => absurd h List.not_mem_nil, fun j => ?_, fun _ h => absurd h List.not_mem_nil⟩
  have hzero : (start tx).rx.slots.get j = .zero := Vector.getElem_replicate ..
  rw [hzero]
  exact fun hused => absurd hused (by decide)

end LinkState

/-! ## A send keeps the invariant -/

section

variable {sign : Option LmAirSign} {tx : LmAirTx} {message : LmAirMessage}

/-- Beginning a message keeps the profile. -/
theorem begin_profile (sign : Option LmAirSign) (tx : LmAirTx) (message : LmAirMessage) :
    (lmAirTxBegin sign tx message).1.profile = tx.profile := by
  have houtcome := begin_outcome sign tx message
  generalize (lmAirTxBegin sign tx message).2 = status at houtcome
  cases houtcome with
  | refused hstatus hsame => rw [hsame]
  | failed hstatus hphase hprofile hstream hnext => exact hprofile
  | begun hbegun => exact hbegun.profile

/-- What a send emits: nothing when the message is refused, and otherwise the first frames of a
transfer of the message. -/
theorem send_emits (emit : Nat → LmAirBlock → LmAirStatus)
    (hcount : divCeil (envelopeLen message) tx.profile.fragmentPayloadBytes.toNat ≤
      lmAirMaxFragments) :
    (lmAirTxSend sign emit tx message).1.profile = tx.profile ∧
      ∀ block ∈ (lmAirTxSend sign emit tx message).2.2, ReachesCount sign tx message ∧
        ∃ transfer : Transfer, transfer.profile = tx.profile ∧
          transfer.sequence = tx.nextSequence ∧ transfer.message = message ∧
          Signs sign message transfer.signature ∧
          ∃ index < (lmAirTxSend sign emit tx message).2.2.length, index < transfer.count ∧
            block.Carries (transfer.frame index) := by
  rcases @send_outcome sign tx message emit hcount with ⟨hrefused, heq⟩ |
    ⟨begun, transfer, stop, hbegin, hprofile, -, hsequence, hmessage, hsigns, houtcome⟩
  · rw [heq]
    exact ⟨begin_profile sign tx message, fun _ hblock => absurd hblock List.not_mem_nil⟩
  · refine ⟨houtcome.profile.trans (begun_of_begin hbegin).profile, fun block hblock => ?_⟩
    have hlength := houtcome.blocks.length_eq
    rw [List.length_range', Nat.sub_zero] at hlength
    obtain ⟨index, hindex, hcarries⟩ := houtcome.carries_of_mem hblock
    exact ⟨(begin_ok_iff.mp (congrArg Prod.snd hbegin)).1, transfer, hprofile, hsequence, hmessage,
      hsigns, index, by rwa [hlength], Nat.lt_of_lt_of_le hindex houtcome.stop_le, hcarries⟩

end

/-- A hook that tells apart what a send may emit tells apart what it emits. -/
theorem Vouches.fewer {verify : Option (List UInt8 → List UInt8 → Int)} {payloadBytes : Nat}
    {sequence : UInt16} {sends : List SendRecord} {whole record : SendRecord}
    (h : Vouches verify payloadBytes sequence (sends ++ [whole]))
    (hemits : ∀ index fragment, record.Emits payloadBytes sequence index fragment →
      whole.Emits payloadBytes sequence index fragment)
    (hmessage : whole.message = record.message) :
    Vouches verify payloadBytes sequence (sends ++ [record]) := by
  intro hook hverify count fragments hfragments data signature hlength hjoined hzero
  obtain ⟨sent, hsent, hdata⟩ := h hook hverify count fragments (fun k hk => by
    obtain ⟨sent, hsent, hemitted⟩ := hfragments k hk
    rcases List.mem_append.mp hsent with hold | hnew
    · exact ⟨sent, List.mem_append_left _ hold, hemitted⟩
    · obtain rfl := List.mem_singleton.mp hnew
      exact ⟨whole, List.mem_append_right _ (List.mem_singleton_self _), hemits k _ hemitted⟩)
    data signature hlength hjoined hzero
  rcases List.mem_append.mp hsent with hold | hnew
  · exact ⟨sent, List.mem_append_left _ hold, hdata⟩
  · obtain rfl := List.mem_singleton.mp hnew
    exact ⟨record, List.mem_append_right _ (List.mem_singleton_self _), hmessage ▸ hdata⟩

namespace LinkState

variable {verify : Option (List UInt8 → List UInt8 → Int)} {state : LinkState}

/-- A send gives its message to the transmitter. -/
theorem given_send (state : LinkState) (sign : Option LmAirSign)
    (emit : Nat → LmAirBlock → LmAirStatus) (message : LmAirMessage) :
    (state.send sign emit message).given = state.given ++ [message] := by
  rw [given, given, send, List.map_append, List.map_singleton, record]

/-- The calls after one more call. -/
theorem mem_sends_send {sign : Option LmAirSign} {emit : Nat → LmAirBlock → LmAirStatus}
    {message : LmAirMessage} {record : SendRecord} :
    record ∈ (state.send sign emit message).sends ↔ record ∈ state.sends ∨
      record = state.record sign message
        (lmAirTxSend sign emit state.tx message).2.2.length := by
  rw [send, List.mem_append, List.mem_singleton]

/-- A send emits no more blocks than its message has fragments. -/
theorem send_blocks_le (sign : Option LmAirSign) (emit : Nat → LmAirBlock → LmAirStatus)
    (tx : LmAirTx) (message : LmAirMessage)
    (hcount : divCeil (envelopeLen message) tx.profile.fragmentPayloadBytes.toNat ≤
      lmAirMaxFragments) :
    (lmAirTxSend sign emit tx message).2.2.length ≤
      divCeil (envelopeLen message) tx.profile.fragmentPayloadBytes.toNat := by
  rcases @send_outcome sign tx message emit hcount with ⟨-, heq⟩ |
    ⟨begun, transfer, stop, -, hprofile, -, -, hmessage, -, houtcome⟩
  · rw [heq]
    exact Nat.zero_le _
  · have hlength := houtcome.blocks.length_eq
    have hstop := houtcome.stop_le
    rw [List.length_range', Nat.sub_zero] at hlength
    rwa [← hlength, Transfer.count, transfer.envelope_length, hmessage, Transfer.payloadBytes,
      hprofile] at hstop

/-- A new send cannot be mixed with the sends before it. -/
theorem apart_send {sign : Option LmAirSign} {message : LmAirMessage}
    (emit : Nat → LmAirBlock → LmAirStatus)
    (hcount : divCeil (envelopeLen message) state.payloadBytes ≤ lmAirMaxFragments)
    (hsafe : SafeSend verify state sign message) {earlier : SendRecord}
    (hearlier : earlier ∈ state.sends) :
    earlier.Apart state.payloadBytes
      (Vouches verify state.payloadBytes state.tx.nextSequence
        (state.send sign emit message).sends)
      (state.record sign message (lmAirTxSend sign emit state.tx message).2.2.length) := by
  intro hfirst hsecond hsequence hheader
  obtain ⟨block, hblock⟩ := List.exists_mem_of_length_pos hsecond
  -- a send that emits something is not refused
  have hreaches := ((@send_emits sign state.tx message emit hcount).2 block hblock).1
  rcases hsafe.2 hreaches earlier hearlier hfirst hsequence hheader with
    hsame | ⟨hflag, hvouches⟩ | ⟨hflag, hagree | honce⟩
  · exact Or.inl hsame
  · refine Or.inr (Or.inl ⟨hflag, hvouches.fewer (fun index fragment hemits => ?_) rfl⟩)
    exact ⟨hemits.1, Nat.lt_of_lt_of_le hemits.2.1
      (send_blocks_le sign emit state.tx message hcount), hemits.2.2⟩
  · exact Or.inr (Or.inr ⟨hflag, Or.inl hagree⟩)
  · exact Or.inr (Or.inr ⟨hflag, Or.inr (Or.inr honce)⟩)

/-- A send that cannot be mixed with earlier ones keeps the invariant. -/
theorem Sound.send (h : state.Sound verify) {sign : Option LmAirSign} {message : LmAirMessage}
    (emit : Nat → LmAirBlock → LmAirStatus)
    (hcount : divCeil (envelopeLen message) state.payloadBytes ≤ lmAirMaxFragments)
    (hsafe : SafeSend verify state sign message) :
    (state.send sign emit message).Sound verify := by
  obtain ⟨hprofile, hemits⟩ := @send_emits sign state.tx message emit hcount
  have hsource : ∀ transfer blocks, state.Source transfer blocks →
      (state.send sign emit message).Source transfer blocks := by
    rintro transfer blocks ⟨hold, record, hmem, hrest⟩
    exact ⟨hold.trans hprofile.symm, record, List.mem_append_left _ hmem, hrest⟩
  have hbytes : (state.send sign emit message).payloadBytes = state.payloadBytes :=
    congrArg (fun profile => profile.fragmentPayloadBytes.toNat) hprofile
  refine ⟨fun record hmem => ?_, fun early late first second hlt hfirst hsecond => ?_,
    fun block hmem => ?_, fun j => (h.slots j).mono hsource, fun delivered hmem => ?_⟩
  · rcases mem_sends_send.mp hmem with hold | rfl
    · exact h.flag record hold
    · exact hsafe.1
  · rw [hbytes]
    obtain ⟨hlate, -⟩ := List.getElem?_eq_some_iff.mp hsecond
    have hlength : (state.send sign emit message).sends.length = state.sends.length + 1 :=
      List.length_append
    have hfirst' : state.sends[early]? = some first := by
      rwa [LinkState.send, List.getElem?_append_left (by omega)] at hfirst
    rcases Nat.lt_succ_iff_lt_or_eq.mp (hlength ▸ hlate) with hold | rfl
    · rw [LinkState.send, List.getElem?_append_left hold] at hsecond
      rw [LinkState.send, List.take_append_of_le_length hold]
      exact h.apart early late first second hlt hfirst' hsecond
    · rw [LinkState.send, List.getElem?_append_right le_rfl, Nat.sub_self] at hsecond
      obtain rfl := Option.some.inj hsecond
      rw [List.take_of_length_le (Nat.le_of_eq hlength)]
      exact apart_send emit hcount hsafe (List.mem_of_getElem? hfirst')
  · rcases List.mem_append.mp hmem with hold | hfresh
    · obtain ⟨transfer, blocks, index, hold, hrest⟩ := h.emitted block hold
      exact ⟨transfer, blocks, index, hsource transfer blocks hold, hrest⟩
    · obtain ⟨-, transfer, hsame, hsequence, hmessage, hsigns, index, hindex, hrest⟩ :=
        hemits block hfresh
      exact ⟨transfer, _, index, ⟨hsame.trans hprofile.symm, _,
        List.mem_append_right _ (List.mem_singleton_self _), rfl, hsequence, hmessage, hsigns⟩,
        hindex, hrest⟩
  · rw [given_send]
    exact List.mem_append_left _ (h.delivered delivered hmem)

end LinkState

/-! ## An arrival keeps the invariant -/

/-- A message whose flag is zero or one is delivered as it is. -/
theorem LmAirMessage.delivered_eq {message : LmAirMessage} (h : message.authenticated ≤ 1) :
    message.delivered = message := by
  have hflag : (if message.authenticated ≠ 0 then (1 : UInt8) else 0) = message.authenticated := by
    rw [UInt8.le_iff_toNat_le] at h
    change message.authenticated.toNat ≤ 1 at h
    split
    · rename_i hne
      rw [Ne, ← UInt8.toNat_inj] at hne
      change ¬ message.authenticated.toNat = 0 at hne
      refine UInt8.toNat_inj.mp ?_
      change 1 = message.authenticated.toNat
      omega
    · rename_i heq
      exact (not_not.mp heq).symm
  rw [LmAirMessage.delivered, hflag]

/-- Two transfers in one slot have the same header. -/
theorem same_header_of_holds {slot : LmAirReassemblySlot} {first second : Transfer} {i k : Nat}
    (hfirst : slot.HoldsFragment first i) (hsecond : slot.HoldsFragment second k)
    (hprofile : first.profile = second.profile) :
    SameHeader first.payloadBytes first.message second.message := by
  obtain ⟨-, -, hflags, hclass, hpriority, htag⟩ := hfirst.metadata
  obtain ⟨-, -, hflags', hclass', hpriority', htag'⟩ := hsecond.metadata
  refine ⟨?_, ?_, hclass.symm.trans hclass', hpriority.symm.trans hpriority',
    htag.symm.trans htag'⟩
  · have hcount := hfirst.count.symm.trans hsecond.count
    rw [Transfer.count, Transfer.count, first.envelope_length, second.envelope_length] at hcount
    rwa [show second.payloadBytes = first.payloadBytes by
      rw [Transfer.payloadBytes, Transfer.payloadBytes, hprofile]] at hcount
  · rw [← first.auth_flag_iff, ← second.auth_flag_iff]
    rw [show first.flags = second.flags from hflags.symm.trans hflags']

/-- A slot that assembles a message is read as that message. -/
theorem message_of_assembles {callbacks : LmAirRxCallbacks} {slot : LmAirReassemblySlot}
    {outerFlags : UInt8} {sent message : LmAirMessage} {signature : List UInt8}
    (h : slot.Assembles sent signature) (hlength : signature.length = (signatureLen sent).toNat)
    (hflags : (outerFlags &&& lmAirFlagAuthenticated ≠ 0) ↔ sent.authenticated ≠ 0)
    (hmessage : slotMessage callbacks slot outerFlags = .ok message) :
    message = sent.delivered := by
  rw [slot_message_envelope callbacks h hlength hflags] at hmessage
  split at hmessage
  · cases hmessage
  · exact (Except.ok.inj hmessage).symm

namespace LinkState

variable {verify : Option (List UInt8 → List UInt8 → Int)} {state : LinkState}

/-- A message of a send is delivered as it was given. -/
theorem Sound.delivered_mem_given (h : state.Sound verify) {record : SendRecord}
    (hmem : record ∈ state.sends) : record.message.delivered ∈ state.given := by
  rw [LmAirMessage.delivered_eq (h.flag record hmem)]
  exact List.mem_map_of_mem hmem

/-- The fragments of a slot with the sends that emitted them, by their positions. -/
structure Picks (state : LinkState) (slot : LmAirReassemblySlot) (sources : Nat → Transfer)
    (positions : Nat → Nat) (records : Nat → SendRecord) : Prop where
  profile : ∀ k < slot.fragmentCount.toNat, (sources k).profile = state.tx.profile
  get : ∀ k < slot.fragmentCount.toNat, state.sends[positions k]? = some (records k)
  sends : ∀ k < slot.fragmentCount.toNat, (records k).Sends (sources k)
  emitted : ∀ k < slot.fragmentCount.toNat, k < (records k).blocks
  holds : ∀ k < slot.fragmentCount.toNat, slot.HoldsFragment (sources k) k

/-- Every fragment of a complete slot was emitted by some send. -/
theorem exists_picks {slot : LmAirReassemblySlot} (hused : slot.used = true)
    (hcomes : slot.ComesFrom state.Source) (hpos : 0 < slot.fragmentCount.toNat)
    (hall : ∀ k < slot.fragmentCount.toNat, slot.Has k) :
    ∃ sources positions records, state.Picks slot sources positions records := by
  have hsome : ∀ k, ∃ (source : Transfer) (position : Nat) (record : SendRecord),
      k < slot.fragmentCount.toNat →
      source.profile = state.tx.profile ∧ state.sends[position]? = some record ∧
        record.Sends source ∧ k < record.blocks ∧ slot.HoldsFragment source k := by
    obtain ⟨first, _, ⟨-, other, -⟩, -⟩ := hcomes hused 0 (hall 0 hpos)
    intro k
    by_cases hk : k < slot.fragmentCount.toNat
    · obtain ⟨source, _, ⟨hprofile, record, hmem, rfl, hsends⟩, hemitted, hholds⟩ :=
        hcomes hused k (hall k hk)
      obtain ⟨position, hget⟩ := List.mem_iff_getElem?.mp hmem
      exact ⟨source, position, record, fun _ => ⟨hprofile, hget, hsends, hemitted, hholds⟩⟩
    · exact ⟨first, 0, other, fun hlt => absurd hlt hk⟩
  choose sources positions records hpicks using hsome
  exact ⟨sources, positions, records, fun k hk => (hpicks k hk).1, fun k hk => (hpicks k hk).2.1,
    fun k hk => (hpicks k hk).2.2.1, fun k hk => (hpicks k hk).2.2.2.1,
    fun k hk => (hpicks k hk).2.2.2.2⟩

namespace Picks

variable {slot : LmAirReassemblySlot} {sources : Nat → Transfer} {positions : Nat → Nat}
  {records : Nat → SendRecord}

/-- The fragments of one slot were cut to one size. -/
theorem payload_bytes (h : state.Picks slot sources positions records) {k : Nat}
    (hk : k < slot.fragmentCount.toNat) : (sources k).payloadBytes = state.payloadBytes :=
  congrArg (fun profile => profile.fragmentPayloadBytes.toNat) (h.profile k hk)

/-- Two sends that emitted fragments of one slot cannot be mixed. -/
theorem apart (h : state.Picks slot sources positions records) (hsound : state.Sound verify)
    {i k : Nat} (hi : i < slot.fragmentCount.toNat) (hk : k < slot.fragmentCount.toNat)
    (hlt : positions i < positions k) :
    (records i).message = (records k).message ∨
      ((records k).message.authenticated ≠ 0 ∧ Vouches verify state.payloadBytes slot.sequence
        (state.sends.take (positions k + 1))) ∨
      ((records k).message.authenticated = 0 ∧
        (AgreeUpTo state.payloadBytes (records i).blocks (records i).message
            (records k).message ∨
          AgreeUpTo state.payloadBytes (records k).blocks (records i).message
            (records k).message ∨
          DifferOnce state.payloadBytes (records i).message (records k).message)) := by
  have hheader := same_header_of_holds (h.holds i hi) (h.holds k hk)
    ((h.profile i hi).trans (h.profile k hk).symm)
  rw [h.payload_bytes hi, (h.sends i hi).message, (h.sends k hk).message] at hheader
  have hsequence : ∀ j < slot.fragmentCount.toNat, slot.sequence = (records j).sequence :=
    fun j hj => (h.holds j hj).collects.2.2.trans (h.sends j hj).sequence
  have hapart := hsound.apart _ _ _ _ hlt (h.get i hi) (h.get k hk)
    (Nat.zero_lt_of_lt (h.emitted i hi)) (Nat.zero_lt_of_lt (h.emitted k hk))
    ((hsequence i hi).symm.trans (hsequence k hk)) hheader
  rwa [← hsequence k hk] at hapart

/-- The fragments of a slot as the sends emitted them. -/
theorem emits (h : state.Picks slot sources positions records) {k : Nat}
    (hk : k < slot.fragmentCount.toNat) :
    (records k).Emits state.payloadBytes slot.sequence k ((sources k).fragment k) := by
  refine ⟨((h.holds k hk).collects.2.2.trans (h.sends k hk).sequence).symm, h.emitted k hk,
    _, (h.sends k hk).signs, ?_⟩
  rw [Transfer.fragment, h.payload_bytes hk, Transfer.envelope, (h.sends k hk).message]

/-- What a signed slot is read as was given to the transmitter: by the verify hook, or because its
fragments are all of one message. -/
theorem signed_given (h : state.Picks slot sources positions records)
    (hsound : state.Sound verify) {receive : LmAirMessage → LmAirStatus} {outerFlags : UInt8}
    {message : LmAirMessage} (hpos : 0 < slot.fragmentCount.toNat)
    (hmessage : slotMessage ⟨verify, receive⟩ slot outerFlags = .ok message)
    (hsigned : outerFlags &&& lmAirFlagAuthenticated ≠ 0)
    (hflags : ∀ k < slot.fragmentCount.toNat, (sources k).message.authenticated ≠ 0) :
    message ∈ state.given := by
  -- the latest of the sends
  obtain ⟨last, hlast, hmax⟩ := Finset.exists_max_image (Finset.range slot.fragmentCount.toNat)
    positions ⟨0, Finset.mem_range.mpr hpos⟩
  rw [Finset.mem_range] at hlast
  by_cases hvouches : Vouches verify state.payloadBytes slot.sequence
      (state.sends.take (positions last + 1))
  · obtain ⟨hook, data, signature, hverify, hzero, hlength, hjoined, hread⟩ :=
      slot_message_accepted hmessage hsigned hpos h.holds
    obtain ⟨record, hrecord, hdata⟩ := hvouches hook hverify _ _ (fun k hk => by
      refine ⟨records k, List.mem_iff_getElem?.mpr ⟨positions k, ?_⟩, h.emits hk⟩
      rw [List.getElem?_take_of_lt (Nat.lt_succ_of_le (hmax k (Finset.mem_range.mpr hk)))]
      exact h.get k hk) data signature hlength hjoined hzero
    rw [hread _ hdata]
    exact hsound.delivered_mem_given (List.mem_of_mem_take hrecord)
  · have hsame : ∀ k < slot.fragmentCount.toNat, (sources k).message = (records last).message := by
      intro k hk
      rw [(h.sends k hk).message]
      rcases Nat.lt_or_eq_of_le (hmax k (Finset.mem_range.mpr hk)) with hlt | heq
      · rcases h.apart hsound hk hlast hlt with hsame | ⟨-, hvouched⟩ | ⟨hplain, -⟩
        · exact hsame
        · exact absurd hvouched hvouches
        · exact absurd ((h.sends last hlast).message ▸ hplain) (hflags last hlast)
      · have hget := h.get k hk
        rw [heq, h.get last hlast] at hget
        rw [Option.some.inj hget]
    obtain ⟨signature, hlength, hassembles⟩ := assembles_same hpos h.holds
      (fun k hk => h.payload_bytes hk) hsame
    rw [message_of_assembles hassembles hlength
      (iff_of_true hsigned (hsame last hlast ▸ hflags last hlast)) hmessage]
    exact hsound.delivered_mem_given (List.mem_of_getElem? (h.get last hlast))

/-- What an unsigned slot is read as was given to the transmitter: its fragments cannot be mixed. -/
theorem plain_given (h : state.Picks slot sources positions records)
    (hsound : state.Sound verify) {receive : LmAirMessage → LmAirStatus} {outerFlags : UInt8}
    {message : LmAirMessage} (hpos : 0 < slot.fragmentCount.toNat)
    (hmessage : slotMessage ⟨verify, receive⟩ slot outerFlags = .ok message)
    (hplain : ¬ outerFlags &&& lmAirFlagAuthenticated ≠ 0)
    (hflags : ∀ k < slot.fragmentCount.toNat, (sources k).message.authenticated = 0) :
    message ∈ state.given := by
  have hfragment : ∀ k < slot.fragmentCount.toNat, ∀ j, (sources k).fragment j =
      chunk state.payloadBytes (canonicalBytes (records k).message) j := by
    intro k hk j
    have hempty := (sources k).signature_size
    rw [signature_len_plain (hflags k hk)] at hempty
    rw [Transfer.fragment, h.payload_bytes hk, Transfer.envelope, envelopeBytes,
      List.eq_nil_of_length_eq_zero hempty, List.append_nil, (h.sends k hk).message]
  have hnotSigned : ∀ k < slot.fragmentCount.toNat, ∀ {vouched : Prop},
      ¬ ((records k).message.authenticated ≠ 0 ∧ vouched) := by
    rintro k hk _ ⟨hflag, -⟩
    exact hflag ((h.sends k hk).message ▸ hflags k hk)
  obtain ⟨whole, hwhole, hassembles⟩ := assembles_source hpos h.holds h.emitted
    fun i hi k hk => by
      simp only [hfragment i hi, hfragment k hk]
      rcases Nat.lt_trichotomy (positions i) (positions k) with hlt | heq | hlt
      · rcases h.apart hsound hi hk hlt with hsame | hvouched | ⟨-, hapart⟩
        · exact Or.inl fun j _ => by rw [hsame]
        · exact absurd hvouched (hnotSigned k hk)
        · exact hapart
      · have hget := h.get i hi
        rw [heq, h.get k hk] at hget
        exact Or.inl fun j _ => by rw [Option.some.inj hget]
      · rcases h.apart hsound hk hi hlt with hsame | hvouched | ⟨-, hagree | hagree | honce⟩
        · exact Or.inl fun j _ => by rw [hsame]
        · exact absurd hvouched (hnotSigned i hi)
        · exact Or.inr (Or.inl fun j hj => (hagree j hj).symm)
        · exact Or.inl fun j hj => (hagree j hj).symm
        · exact Or.inr (Or.inr fun j l hj hl => honce j l hj.symm hl.symm)
  rw [message_of_assembles hassembles (sources whole).signature_size
    (iff_of_false hplain (not_not.mpr (hflags whole hwhole))) hmessage,
    (h.sends whole hwhole).message]
  exact hsound.delivered_mem_given (List.mem_of_getElem? (h.get whole hwhole))

end Picks

/-- What a complete slot is read as was given to the transmitter. -/
theorem Sound.given_of_completes (h : state.Sound verify) {receive : LmAirMessage → LmAirStatus}
    {transfer : Transfer} {slot : LmAirReassemblySlot} {message : LmAirMessage}
    (hcompletes : Completes ⟨verify, receive⟩ state.Source transfer slot message) :
    message ∈ state.given := by
  obtain ⟨hused, hcomes, hmetadata, hall, hmessage⟩ := hcompletes
  have hcount : slot.fragmentCount.toNat = transfer.count := by
    rw [hmetadata.1]
    exact transfer.count_to_nat
  have hpos : 0 < slot.fragmentCount.toNat := by
    rw [hcount]
    exact transfer.count_pos
  obtain ⟨sources, positions, records, hpicks⟩ := exists_picks hused hcomes hpos (hcount ▸ hall)
  have hflags : ∀ k < slot.fragmentCount.toNat,
      (transfer.flags &&& lmAirFlagAuthenticated ≠ 0 ↔ (sources k).message.authenticated ≠ 0) := by
    intro k hk
    rw [← (sources k).auth_flag_iff]
    rw [show (sources k).flags = transfer.flags from
      (hpicks.holds k hk).metadata.2.2.1.symm.trans hmetadata.2.2.1]
  by_cases hsigned : transfer.flags &&& lmAirFlagAuthenticated ≠ 0
  · exact hpicks.signed_given h hpos hmessage hsigned fun k hk => (hflags k hk).mp hsigned
  · exact hpicks.plain_given h hpos hmessage hsigned fun k hk =>
      not_not.mp fun hne => hsigned ((hflags k hk).mpr hne)

/-- The arrival of an emitted block keeps the invariant. -/
theorem Sound.ingest (h : state.Sound verify) (receive : LmAirMessage → LmAirStatus)
    {block : LmAirBlock} (hblock : block ∈ state.emitted) :
    (state.ingest ⟨verify, receive⟩ block).Sound verify := by
  obtain ⟨transfer, blocks, index, hsource, hemitted, hindex, hcarries⟩ := h.emitted block hblock
  have houtcome := ingest_decoded_outcome ⟨verify, receive⟩ state.rx (transfer.frame index)
  rw [← ingest_block_of_carries hcarries] at houtcome
  obtain ⟨hslots, hdelivered⟩ := houtcome.comes_from h.slots hsource hemitted hindex
  refine ⟨h.flag, h.apart, h.emitted, hslots, fun message hmem => ?_⟩
  rcases List.mem_append.mp hmem with hold | hnew
  · exact h.delivered message hold
  · rw [Option.mem_toList, Option.map_eq_some_iff] at hnew
    obtain ⟨delivered, hsome, rfl⟩ := hnew
    obtain ⟨slot, hcompletes⟩ := hdelivered delivered hsome
    exact h.given_of_completes hcompletes

end LinkState

/-! ## Runs -/

/-- Every message that is delivered was given to the transmitter, in every run whose sends cannot
be mixed with earlier ones. -/
theorem delivered_were_given (verify : Option (List UInt8 → List UInt8 → Int)) (tx : LmAirTx)
    (state : LinkState) (h : Reachable (LinkStep verify (SafeSend verify)) (.start tx) state) :
    ∀ message ∈ state.delivered, message ∈ state.given := by
  refine (h.invariant (LinkState.Sound verify) (LinkState.sound_start verify tx) ?_).delivered
  intro before after hsound hstep
  cases hstep with
  | send hfew hcount hcondition => exact hsound.send _ hcount hcondition
  | ingest hblock => exact hsound.ingest _ hblock

/-! ## A send after an aborted one -/

/-- Some emitted blocks arrive, by their positions. -/
def LinkState.arrive (verify : Option (List UInt8 → List UInt8 → Int)) (state : LinkState)
    (positions : List Nat) : LinkState :=
  positions.foldl (fun (state : LinkState) position =>
    match state.emitted[position]? with
    | some block => state.ingest ⟨verify, fun _ => .ok⟩ block
    | none => state) state

/-- A send whose second block the callback refuses. -/
def abortedSend (tx : LmAirTx) (sign : Option LmAirSign) (message : LmAirMessage) : LinkState :=
  (LinkState.start tx).send sign (fun i _ => if i = 1 then .errCallback else .ok) message

/-- An aborted send and a whole send after it. -/
def probeSends (tx : LmAirTx) (sign : Option LmAirSign) (first second : LmAirMessage) : LinkState :=
  (abortedSend tx sign first).send sign (fun _ _ => .ok) second

section

variable {verify : Option (List UInt8 → List UInt8 → Int)}
  {Condition : LinkState → Option LmAirSign → LmAirMessage → Prop} {tx : LmAirTx}
  {sign : Option LmAirSign} {first second : LmAirMessage}

/-- Arrivals of emitted blocks are steps of the link. -/
theorem reachable_arrive {start state : LinkState}
    (h : Reachable (LinkStep verify Condition) start state) (positions : List Nat) :
    Reachable (LinkStep verify Condition) start (state.arrive verify positions) := by
  induction positions generalizing state with
  | nil => exact h
  | cons position positions ih =>
      refine ih ?_
      dsimp only
      cases hblock : state.emitted[position]? with
      | none => exact h
      | some block => exact h.step (.ingest (List.mem_of_getElem? hblock))

/-- An aborted send keeps the payload bytes of a frame. -/
theorem aborted_send_payload_bytes
    (hcount : divCeil (envelopeLen first) tx.profile.fragmentPayloadBytes.toNat ≤
      lmAirMaxFragments) :
    (abortedSend tx sign first).payloadBytes = tx.profile.fragmentPayloadBytes.toNat :=
  congrArg (fun profile => profile.fragmentPayloadBytes.toNat)
    (@send_emits sign tx first (fun i _ => if i = 1 then .errCallback else .ok) hcount).1

/-- An aborted send and a whole one are steps of the link. -/
theorem reachable_probe_sends
    (hfirst : divCeil (envelopeLen first) tx.profile.fragmentPayloadBytes.toNat ≤
      lmAirMaxFragments)
    (hsecond : divCeil (envelopeLen second) tx.profile.fragmentPayloadBytes.toNat ≤
      lmAirMaxFragments)
    (hcondition : Condition (.start tx) sign first)
    (hcondition' : Condition (abortedSend tx sign first) sign second) :
    Reachable (LinkStep verify Condition) (.start tx) (probeSends tx sign first second) := by
  refine .step (.step .start (.send (show 0 + 1 < 32768 by decide) hfirst hcondition))
    (.send (show 1 + 1 < 32768 by decide) ?_ hcondition')
  exact (aborted_send_payload_bytes hfirst).symm ▸ hsecond

end

/-- An unsigned message of one byte. -/
def probeMessage (tag : UInt8) : LmAirMessage :=
  ⟨1, 2, tag.toUInt32, 4, 0, 5, Vector.replicate 16 9, [tag], 0, by simp⟩

/-- A transmitter with 24 payload bytes in a frame. -/
def probeTx : LmAirTx := .fresh 3 7 ⟨0, 24, 0, 0⟩ rfl

/-- The unsigned message has at most 32 fragments. -/
theorem probe_count (tag : UInt8) : divCeil (envelopeLen (probeMessage tag))
    probeTx.profile.fragmentPayloadBytes.toNat ≤ lmAirMaxFragments :=
  show divCeil 49 24 ≤ 32 by decide

/-- A signed message whose body is cut in two by the fragments of 64 bytes. -/
def signedProbe (tag : UInt8) : LmAirMessage :=
  ⟨1, 2, tag.toUInt32, 4, 0, 5, Vector.replicate 16 9, List.replicate 20 tag, 1, by simp⟩

/-- A transmitter with 64 payload bytes in a frame. -/
def signedProbeTx : LmAirTx := .fresh 3 7 ⟨0, 64, 0, 0⟩ rfl

/-- The signed message has at most 32 fragments. -/
theorem signed_probe_count (tag : UInt8) : divCeil (envelopeLen (signedProbe tag))
    signedProbeTx.profile.fragmentPayloadBytes.toNat ≤ lmAirMaxFragments :=
  show divCeil 132 64 ≤ 32 by decide

/-- The fragments of the two signed messages at one index. -/
def signedPieces (index : Nat) : List (List UInt8) :=
  [1, 2].map fun tag => chunk 64 (envelopeBytes (signedProbe tag)
    (xorTag (canonicalBytes (signedProbe tag))).toList) index

/-- Bytes that end in the tag of the others are signed bytes of one of the two messages. -/
def TagTells (joined : List UInt8) : Prop :=
  joined.drop (joined.length - 64) = (xorTag (joined.take (joined.length - 64))).toList →
    joined.take (joined.length - 64) = canonicalBytes (signedProbe 1) ∨
      joined.take (joined.length - 64) = canonicalBytes (signedProbe 2)

instance (joined : List UInt8) : Decidable (TagTells joined) :=
  inferInstanceAs (Decidable (_ → _))

/-- The tag tells every mixture of the three fragments. -/
theorem tag_tells_pieces : TagTells [] ∧ ∀ a ∈ signedPieces 0, TagTells a ∧
    ∀ b ∈ signedPieces 1, TagTells (a ++ b) ∧ ∀ c ∈ signedPieces 2, TagTells (a ++ b ++ c) := by
  decide +kernel

/-- The signed messages have three fragments. -/
theorem eq_nil_of_mem_signed_pieces {index : Nat} (hindex : 3 ≤ index) {piece : List UInt8}
    (hmem : piece ∈ signedPieces index) : piece = [] := by
  obtain ⟨tag, -, rfl⟩ := List.mem_map.mp hmem
  refine List.eq_nil_of_length_eq_zero ?_
  have hlength : (envelopeBytes (signedProbe tag)
      (xorTag (canonicalBytes (signedProbe tag))).toList).length = 132 :=
    (envelope_bytes_length (Vector.length_toList ..)).trans rfl
  rw [chunk_length, hlength]
  omega

/-- The tag tells what is joined from the fragments of the two messages. -/
theorem tag_tells_joined {count : Nat} {fragments : Nat → List UInt8}
    (h : ∀ k < count, fragments k ∈ signedPieces k) :
    TagTells ((List.range count).flatMap fragments) := by
  obtain ⟨hnone, hsome⟩ := tag_tells_pieces
  match count with
  | 0 => exact hnone
  | 1 =>
      have hone := (hsome _ (h 0 (by decide))).1
      rwa [← List.append_nil (fragments 0)] at hone
  | 2 =>
      have htwo := ((hsome _ (h 0 (by decide))).2 _ (h 1 (by decide))).1
      rwa [← List.append_nil (fragments 1)] at htwo
  | rest + 3 =>
      have hthree := ((hsome _ (h 0 (by omega))).2 _ (h 1 (by omega))).2 _ (h 2 (by omega))
      have hempty : ((List.range rest).map (3 + ·)).flatMap fragments = [] := by
        refine List.flatMap_eq_nil_iff.mpr fun k hk => ?_
        obtain ⟨offset, hoffset, rfl⟩ := List.mem_map.mp hk
        rw [List.mem_range] at hoffset
        exact eq_nil_of_mem_signed_pieces (by omega) (h _ (by omega))
      rw [Nat.add_comm, List.range_add, List.flatMap_append, hempty, List.append_nil]
      rwa [List.append_assoc, ← List.append_nil (fragments 2)] at hthree

/-- The tag tells every mixture of the two messages from them. -/
theorem vouches_signed_probe (sequence : UInt16) {sends : List SendRecord}
    (hsends : ∀ record ∈ sends, record.sign = some tagSign ∧
      ∃ tag ∈ ([1, 2] : List UInt8), record.message = signedProbe tag)
    (hboth : ∀ tag ∈ ([1, 2] : List UInt8), ∃ record ∈ sends, record.message = signedProbe tag) :
    Vouches tagCallbacks.verify 64 sequence sends := by
  intro hook hverify count fragments hfragments data signature hlength hjoined hzero
  obtain rfl := Option.some.inj hverify
  have hpieces : ∀ k < count, fragments k ∈ signedPieces k := by
    intro k hk
    obtain ⟨record, hmem, -, -, signature, hsigns, heq⟩ := hfragments k hk
    obtain ⟨hsign, tag, htag, hmessage⟩ := hsends record hmem
    rw [hsign, hmessage] at hsigns
    rw [hmessage] at heq
    refine List.mem_map.mpr ⟨tag, htag, ?_⟩
    cases hsigns with
    | unsigned hplain => exact absurd (show (1 : UInt8) = 0 from hplain) (by decide)
    | signed hflag hhook hanswer =>
        obtain rfl := Option.some.inj hhook
        obtain rfl := congrArg Prod.snd hanswer
        exact heq.symm
  have htells := tag_tells_joined hpieces
  have htag : signature = (xorTag data).toList := by
    by_contra hne
    exact absurd ((if_neg hne).symm.trans hzero) (by decide)
  have hdata : (data ++ signature).length - 64 = data.length := by
    rw [List.length_append, hlength, lmAirSignatureBytes, Nat.add_sub_cancel]
  rw [hjoined, TagTells, hdata, List.drop_left, List.take_left] at htells
  rcases htells htag with hfirst | hsecond
  · obtain ⟨record, hmem, hmessage⟩ := hboth 1 (by decide)
    exact ⟨record, hmem, hmessage ▸ hfirst⟩
  · obtain ⟨record, hmem, hmessage⟩ := hboth 2 (by decide)
    exact ⟨record, hmem, hmessage ▸ hsecond⟩

/-- A first send cannot be mixed with an earlier one. -/
theorem safe_send_first {verify : Option (List UInt8 → List UInt8 → Int)} {tx : LmAirTx}
    {sign : Option LmAirSign} {message : LmAirMessage} (h : message.authenticated ≤ 1) :
    SafeSend verify (.start tx) sign message :=
  ⟨h, fun _ _ hmem => absurd hmem List.not_mem_nil⟩

/-- The same message again cannot be mixed with an aborted send. -/
theorem safe_send_again {verify : Option (List UInt8 → List UInt8 → Int)} {tx : LmAirTx}
    {sign : Option LmAirSign} {message : LmAirMessage} (h : message.authenticated ≤ 1) :
    SafeSend verify (abortedSend tx sign message) sign message := by
  refine ⟨h, fun _ earlier hmem _ _ _ => Or.inl ?_⟩
  rw [(LinkState.mem_sends_send.mp hmem).resolve_left List.not_mem_nil]
  rfl

/-- With the tag, another signed message can be sent after an aborted send. -/
theorem safe_send_signed : SafeSend tagCallbacks.verify
    (abortedSend signedProbeTx (some tagSign) (signedProbe 1)) (some tagSign) (signedProbe 2) := by
  refine ⟨by decide, fun _ _ _ _ _ _ => Or.inr (Or.inl ⟨by decide, ?_⟩)⟩
  rw [aborted_send_payload_bytes (signed_probe_count 1)]
  refine vouches_signed_probe _ (fun record hmem => ?_) fun tag htag => ?_
  · rcases List.mem_append.mp hmem with hold | hnew
    · rw [(LinkState.mem_sends_send.mp hold).resolve_left List.not_mem_nil]
      exact ⟨rfl, 1, by decide, rfl⟩
    · rw [List.mem_singleton.mp hnew]
      exact ⟨rfl, 2, by decide, rfl⟩
  · rcases List.mem_cons.mp htag with rfl | htag
    · exact ⟨_, List.mem_append_left _ (LinkState.mem_sends_send.mpr (Or.inr rfl)), rfl⟩
    · obtain rfl := List.mem_singleton.mp htag
      exact ⟨_, List.mem_append_right _ (List.mem_singleton_self _), rfl⟩

/-- After an aborted send, a message that is sent again is delivered from blocks of both sends. Of
two signed messages the mixture is refused, and the second is delivered when its blocks arrive
again. -/
theorem delivered_were_given_again :
    (((probeSends probeTx none (probeMessage 1) (probeMessage 1)).arrive none [0, 3, 4]).delivered =
        [probeMessage 1] ∧
      ∀ message ∈ ((probeSends probeTx none (probeMessage 1) (probeMessage 1)).arrive none
          [0, 3, 4]).delivered,
        message ∈ ((probeSends probeTx none (probeMessage 1) (probeMessage 1)).arrive none
          [0, 3, 4]).given) ∧
      ((probeSends signedProbeTx (some tagSign) (signedProbe 1) (signedProbe 2)).arrive
          tagCallbacks.verify [0, 3, 4, 2, 3, 4]).delivered = [signedProbe 2] ∧
      ∀ message ∈ ((probeSends signedProbeTx (some tagSign) (signedProbe 1) (signedProbe 2)).arrive
          tagCallbacks.verify [0, 3, 4, 2, 3, 4]).delivered,
        message ∈ ((probeSends signedProbeTx (some tagSign) (signedProbe 1) (signedProbe 2)).arrive
          tagCallbacks.verify [0, 3, 4, 2, 3, 4]).given := by
  have hagain : SafeSend none (abortedSend probeTx none (probeMessage 1)) none (probeMessage 1) :=
    safe_send_again (by decide)
  have hplain := @reachable_arrive none _ _ _ (reachable_probe_sends (probe_count 1)
    (probe_count 1) (safe_send_first (by decide)) hagain) [0, 3, 4]
  have hsigned := @reachable_arrive tagCallbacks.verify _ _ _ (reachable_probe_sends
    (signed_probe_count 1) (signed_probe_count 2) (safe_send_first (by decide)) safe_send_signed)
    [0, 3, 4, 2, 3, 4]
  exact ⟨⟨by decide +kernel, delivered_were_given none probeTx _ hplain⟩, by decide +kernel,
    delivered_were_given tagCallbacks.verify signedProbeTx _ hsigned⟩

/-- After an aborted send, the blocks of the next message complete the fragments of the aborted
one. -/
theorem aborted_send_mixes :
    ¬ ∀ (verify : Option (List UInt8 → List UInt8 → Int)) (tx : LmAirTx) (state : LinkState),
      Reachable (LinkStep verify fun _ _ _ => True) (.start tx) state →
        ∀ message ∈ state.delivered, message ∈ state.given := by
  intro hclaim
  have hmixed := hclaim none probeTx _
    (reachable_arrive (@reachable_probe_sends none _ _ none _ _ (probe_count 1) (probe_count 2)
      trivial trivial) [0, 3, 4])
  revert hmixed
  decide +kernel

end LatentMesh.AirC
