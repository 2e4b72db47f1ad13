import LatentMesh.AirC.Assembly
import LatentMesh.AirC.AtMostOnce

/-!
# Loopback

The blocks of one successful send reach a fresh receiver in any order, with any duplicates. As long
as a fragment is missing, one slot holds those that have arrived (`Pending`). The last one delivers
the message, and what comes after it is a replay (`pending_run`). See `loopback_delivers_once`.
-/

namespace LatentMesh.AirC

open LatentMesh.Lib LatentMesh.AirCore

/-! ## Runs of the receiver -/

/-- A call of `lm_air_rx_ingest_block`: the callbacks as they answer in it, and the block. -/
abbrev BlockCall := LmAirRxCallbacks × LmAirBlock

/-- What a receiver passes to the receive callback in some calls. -/
def deliveries : LmAirRx → List BlockCall → List LmAirDelivery
  | _, [] => []
  | rx, call :: rest =>
      let (rx, _, delivery) := lmAirRxIngestBlock call.1 rx call.2
      delivery.toList ++ deliveries rx rest

/-- The verify hook of a receiver accepts what the sign hook of a transmitter produces. -/
def LmAirRxCallbacks.Accepts (callbacks : LmAirRxCallbacks) (sign : Option LmAirSign) : Prop :=
  ∀ hook data signature, sign = some hook → hook data = (0, signature) →
    ∃ verify, callbacks.verify = some verify ∧ verify data signature.toList = 0

/-! ## One transfer on a fresh receiver -/

/-- A frame that the receiver has committed is a replay. -/
theorem is_replay_commit {rx : LmAirRx} {streamId : UInt16} (hsound : rx.TableSound)
    (hnone : rx.findEntry streamId = none) (sequence : UInt16) :
    isReplay (commitReplay rx streamId sequence) streamId sequence = true := by
  have hfresh : isReplay rx streamId sequence = false := by
    rw [LmAirRx.is_replay_eq, hnone]
  have hspan : InSpan sequence sequence := by
    rw [InSpan, UInt16.sub_self]
    decide
  have hempty : Remembers rx streamId sequence [] := .forgotten hnone
  obtain ⟨entry, hentry, hnext⟩ := LmAirRx.stream_window_commit hsound streamId sequence
  have hwindow : (commitReplay rx streamId sequence).streamWindow streamId =
      ((rx.streamWindow streamId).commit sequence).1 := by
    rw [LmAirRx.streamWindow, hentry]
    exact hnext
  exact (hempty.deliver hsound hspan hfresh hwindow).is_replay (hsound.commit streamId sequence)
    (List.mem_singleton_self _)

/-- A slot that is read as a message is delivered. -/
theorem deliver_slot_of_message {callbacks : LmAirRxCallbacks} {slot : LmAirReassemblySlot}
    {outerFlags : UInt8} {message : LmAirMessage} (rx : LmAirRx)
    (h : slotMessage callbacks slot outerFlags = .ok message) :
    deliverSlot callbacks rx slot outerFlags =
      (countDelivered (commitReplay rx slot.streamId slot.sequence),
        if (callbacks.receive message).isError then .errCallback else .complete,
        some ⟨slot.streamId, slot.sequence, message⟩) := by
  rw [deliverSlot, h]

/-- A fragment of the transfer is missing, and one slot holds the fragments that have arrived. -/
structure Pending (transfer : Transfer) (rx : LmAirRx) (arrived : List Nat) : Prop where
  replay : rx.replay = lmAirRxInit.replay
  missing : ∃ index < transfer.count, index ∉ arrived
  slots : (arrived = [] ∧ ∀ i : Fin lmAirRxReassemblySlots, rx.slots[i].used = false) ∨
    ∃ i : Fin lmAirRxReassemblySlots, rx.slots[i].Holds transfer ∧
      (∀ index, rx.slots[i].Has index ↔ index ∈ arrived) ∧
      ∀ j : Fin lmAirRxReassemblySlots, j ≠ i → rx.slots[j].used = false

/-- A new receiver has nothing of a transfer. -/
theorem pending_init (transfer : Transfer) : Pending transfer lmAirRxInit [] := by
  refine ⟨rfl, ⟨0, transfer.count_pos, List.not_mem_nil⟩, Or.inl ⟨rfl, fun i => ?_⟩⟩
  simp [lmAirRxInit, LmAirReassemblySlot.zero]

namespace Pending

variable {transfer : Transfer} {rx middle : LmAirRx} {arrived : List Nat} {index : Nat}
  {i : Fin lmAirRxReassemblySlots}

/-- A receiver that waits for a transfer has a sound replay table. -/
theorem table_sound (h : Pending transfer rx arrived) : rx.TableSound :=
  LmAirRx.table_sound_init.congr h.replay

/-- A receiver that waits for a transfer has delivered nothing. -/
theorem find_entry (h : Pending transfer rx arrived) (streamId : UInt16) :
    rx.findEntry streamId = none := by
  rw [LmAirRx.find_entry_congr h.replay]
  exact LmAirRx.find_entry_init streamId

/-- The slot of a frame holds the fragments that have arrived, and no other slot is in use. -/
theorem slot (h : Pending transfer rx arrived)
    (hslot : SlotOutcome rx (transfer.frame index) middle i) :
    (getElem middle.slots i i.isLt).Holds transfer ∧
      (∀ k, (getElem middle.slots i i.isLt).Has k ↔ k ∈ arrived) ∧
      ∀ j, j ≠ i → (getElem middle.slots j j.isLt).used = false := by
  rcases h.slots with ⟨rfl, hunused⟩ | ⟨i', hholds, hhas, hunused⟩
  · cases hslot with
    | found hcollects => exact absurd hcollects.1 (by rw [hunused i]; decide)
    | @allocated _ _ clock hnone hslots hreplay =>
        have hset : ∀ j : Fin lmAirRxReassemblySlots, middle.slots[j] =
            if j = i then .allocated (transfer.frame index) clock else rx.slots[j] := by
          intro j
          rw [hslots, vector_set_get]
        rw [hset i, if_pos rfl]
        refine ⟨holds_allocated transfer index clock, fun k => ?_, fun j hj => ?_⟩
        · exact iff_of_false (not_has_allocated _ _ k) List.not_mem_nil
        · rw [hset j, if_neg hj]
          exact hunused j
  · cases hslot with
    | found hcollects =>
        have hi : i = i' := by
          by_contra hne
          exact absurd hcollects.1 (by rw [hunused i hne]; decide)
        subst hi
        exact ⟨hholds, hhas, hunused⟩
    | allocated hnone hslots hreplay => exact absurd hholds.collects (hnone i')

/-- One more fragment arrives: something is still missing, or the message is delivered. -/
theorem step (h : Pending transfer rx arrived) (hindex : index < transfer.count)
    {callbacks : LmAirRxCallbacks} {rx' : LmAirRx} {status : LmAirStatus}
    {delivery : Option LmAirDelivery}
    (hverified : ¬ (transfer.message.authenticated ≠ 0 ∧
      callbacks.refuses transfer.message transfer.signature = true))
    (houtcome : FrameOutcome callbacks rx (transfer.frame index) rx' status delivery) :
    (delivery = none ∧ Pending transfer rx' (index :: arrived)) ∨
    (delivery = some ⟨transfer.streamId, transfer.sequence, transfer.message.delivered⟩ ∧
      isReplay rx' transfer.streamId transfer.sequence = true) := by
  have hfresh : isReplay rx transfer.streamId transfer.sequence = false := by
    rw [LmAirRx.is_replay_eq, h.find_entry]
  cases houtcome with
  | replay hseen hslots hreplay => exact absurd (hfresh.symm.trans hseen) (by decide)
  | mismatch _ hslot hdiffers hslots hreplay =>
      exact absurd (h.slot hslot).1.metadata hdiffers
  | @duplicate middle i _ hslot hsame hhas hslots hreplay =>
      -- a duplicate changes nothing
      obtain ⟨hholds, hbits, hunused⟩ := h.slot hslot
      rw [has_frame_iff _ hindex, hbits] at hhas
      have hmem : ∀ k, k ∈ index :: arrived ↔ k ∈ arrived := by
        intro k
        rw [List.mem_cons, or_iff_right_of_imp fun hk => hk ▸ hhas]
      obtain ⟨missing, hlt, hnot⟩ := h.missing
      refine Or.inl ⟨rfl, hreplay.trans h.replay, ⟨missing, hlt, by rwa [hmem]⟩, Or.inr ⟨i, ?_⟩⟩
      rw [hslots]
      exact ⟨hholds, fun k => (hbits k).trans (hmem k).symm, hunused⟩
  | @stored middle i clock _ hslot hsame hnew hmore hslots hreplay =>
      obtain ⟨hholds, hbits, hunused⟩ := h.slot hslot
      have hstored := hholds.store hindex clock
      have hbits' : ∀ k, (middle.slots[i].store (transfer.frame index) clock).Has k ↔
          k ∈ index :: arrived := by
        intro k
        rw [has_stored_iff _ hindex, hbits, List.mem_cons, or_comm]
      have hget : ∀ j : Fin lmAirRxReassemblySlots, rx'.slots[j] =
          if j = i then middle.slots[i].store (transfer.frame index) clock
          else middle.slots[j] := by
        intro j
        rw [hslots, vector_set_get]
      refine Or.inl ⟨rfl, hreplay.trans h.replay, ?_, Or.inr ⟨i, ?_⟩⟩
      · by_contra hall
        refine hmore ((complete_iff _).mpr fun k => ?_)
        refine ⟨hstored.index_lt k, fun hk => (hbits' k).mpr ?_⟩
        by_contra hnot
        exact hall ⟨k, hk, hnot⟩
      · rw [hget i, if_pos rfl]
        refine ⟨hstored, hbits', fun j hj => ?_⟩
        rw [hget j, if_neg hj]
        exact hunused j hj
  | @completed middle before i clock _ hslot hsame hnew hcomplete hbefore hslots hreplay =>
      obtain ⟨hholds, -, -⟩ := h.slot hslot
      have hstored := hholds.store hindex clock
      have hall : ∀ k < transfer.count,
          (middle.slots[i].store (transfer.frame index) clock).Has k :=
        fun k hk => ((complete_iff _).mp hcomplete k).mpr hk
      have hmessage := hstored.message hall callbacks
      rw [if_neg hverified] at hmessage
      obtain ⟨-, hstream, hsequence⟩ := hstored.collects
      have hdeliver := deliver_slot_of_message before hmessage
      rw [hstream, hsequence] at hdeliver
      change deliverSlot callbacks before _ (transfer.frame index).flags = _ at hdeliver
      rw [hdeliver] at hreplay ⊢
      refine Or.inr ⟨rfl, ?_⟩
      have hsound : before.TableSound := h.table_sound.congr hbefore
      have hnone : before.findEntry transfer.streamId = none := by
        rw [LmAirRx.find_entry_congr hbefore]
        exact h.find_entry transfer.streamId
      rw [LmAirRx.is_replay_eq, LmAirRx.find_entry_congr hreplay, ← LmAirRx.is_replay_eq]
      exact is_replay_commit hsound hnone transfer.sequence

end Pending

/-! ## The whole run -/

variable {transfer : Transfer}

/-- A block carries one frame of a transfer. -/
theorem carries_unique {block : LmAirBlock} {index other : Nat} (hindex : index < transfer.count)
    (hother : other < transfer.count) (h : block.Carries (transfer.frame index))
    (h' : block.Carries (transfer.frame other)) : index = other := by
  obtain ⟨wire, hbytes, hdecode, -⟩ := h
  obtain ⟨wire', hbytes', hdecode', -⟩ := h'
  obtain rfl : wire = wire' := Except.ok.inj (hbytes.symm.trans hbytes')
  have hframe : transfer.frame index = transfer.frame other :=
    Option.some.inj (congrArg Prod.snd (hdecode.symm.trans hdecode'))
  have hbyte : UInt8.ofNat index = UInt8.ofNat other := congrArg LmAirFrame.fragmentIndex hframe
  rw [← transfer.index_to_nat hindex, ← transfer.index_to_nat hother, hbyte]

/-- The blocks of some calls carry fragments of the transfer, and no call refuses its signature. -/
def Fed (transfer : Transfer) (calls : List BlockCall) : Prop :=
  ∀ call ∈ calls, (∃ index < transfer.count, call.2.Carries (transfer.frame index)) ∧
    ¬ (transfer.message.authenticated ≠ 0 ∧
      call.1.refuses transfer.message transfer.signature = true)

/-- After the delivery every block is a replay. -/
theorem delivered_run {rx : LmAirRx} {calls : List BlockCall} (hfed : Fed transfer calls)
    (h : isReplay rx transfer.streamId transfer.sequence = true) : deliveries rx calls = [] := by
  induction calls generalizing rx with
  | nil => rfl
  | cons call calls ih =>
      obtain ⟨⟨⟨index, -, hcarries⟩, -⟩, hrest⟩ := List.forall_mem_cons.mp hfed
      have hreplay : ingestDecoded call.1 rx (transfer.frame index) =
          (countRejected { rx with stats := { rx.stats with
            replayRejected := rx.stats.replayRejected + 1 } }, .errReplay, none) := by
        unfold ingestDecoded ingestFrame
        rw [if_pos (show isReplay rx (transfer.frame index).streamId
          (transfer.frame index).sequence = true from h)]
        rfl
      rw [deliveries, ingest_block_of_carries hcarries, hreplay]
      exact ih hrest h

/-- Once all fragments have arrived, the message was delivered once. -/
theorem pending_run {rx : LmAirRx} {calls : List BlockCall} {arrived : List Nat}
    (h : Pending transfer rx arrived) (hfed : Fed transfer calls)
    (hall : ∀ index < transfer.count, index ∈ arrived ∨
      ∃ call ∈ calls, call.2.Carries (transfer.frame index)) :
    deliveries rx calls =
      [⟨transfer.streamId, transfer.sequence, transfer.message.delivered⟩] := by
  induction calls generalizing rx arrived with
  | nil =>
      obtain ⟨missing, hlt, hnot⟩ := h.missing
      rcases hall missing hlt with hmem | ⟨call, hmem, -⟩
      · exact absurd hmem hnot
      · cases hmem
  | cons call calls ih =>
      obtain ⟨⟨⟨index, hindex, hcarries⟩, hverified⟩, hrest⟩ := List.forall_mem_cons.mp hfed
      have hstep := h.step hindex hverified
        (ingest_decoded_outcome call.1 rx (transfer.frame index))
      rw [deliveries, ingest_block_of_carries hcarries]
      dsimp only
      rcases hstep with ⟨hnone, hpending⟩ | ⟨hsome, hreplay⟩
      · rw [hnone]
        refine ih hpending hrest fun k hk => ?_
        rcases hall k hk with hmem | ⟨call', hmem, hcarries'⟩
        · exact Or.inl (List.mem_cons_of_mem _ hmem)
        · rcases List.mem_cons.mp hmem with rfl | hmem
          · exact Or.inl (carries_unique hk hindex hcarries' hcarries ▸ List.mem_cons_self ..)
          · exact Or.inr ⟨call', hmem, hcarries'⟩
      · rw [hsome, delivered_run hrest hreplay]
        rfl

section

variable {sign : Option LmAirSign} {emit : Nat → LmAirBlock → LmAirStatus} {tx : LmAirTx}
  {message : LmAirMessage} {calls : List BlockCall}

/-- The verify hook accepts the signature of a signed message. -/
theorem not_refuses_of_accepts {callbacks : LmAirRxCallbacks} {signature : List UInt8}
    (hsigns : Signs sign message signature)
    (haccepts : message.authenticated ≠ 0 → callbacks.Accepts sign) :
    ¬ (message.authenticated ≠ 0 ∧ callbacks.refuses message signature = true) := by
  rintro ⟨hflag, hrefuses⟩
  cases hsigns with
  | unsigned hplain => exact hflag hplain
  | @signed hook signature _ hsign hanswer =>
      obtain ⟨verify, hverify, hzero⟩ := haccepts hflag hook _ signature hsign hanswer
      rw [LmAirRxCallbacks.refuses, hverify] at hrefuses
      exact of_decide_eq_true hrefuses hzero

/-- The blocks of a successful send feed the fragments of one transfer. -/
theorem send_feeds (hsend : (lmAirTxSend sign emit tx message).2.1 = .ok)
    (hcount : divCeil (envelopeLen message) tx.profile.fragmentPayloadBytes.toNat ≤
      lmAirMaxFragments)
    (haccepts : message.authenticated ≠ 0 → ∀ call ∈ calls, call.1.Accepts sign)
    (hfrom : ∀ call ∈ calls, call.2 ∈ (lmAirTxSend sign emit tx message).2.2)
    (hall : ∀ block ∈ (lmAirTxSend sign emit tx message).2.2, ∃ call ∈ calls, call.2 = block) :
    ∃ transfer : Transfer, transfer.streamId = tx.streamId ∧
      transfer.sequence = tx.nextSequence ∧ transfer.message = message ∧ Fed transfer calls ∧
      ∀ index < transfer.count, ∃ call ∈ calls, call.2.Carries (transfer.frame index) := by
  rcases @send_outcome sign tx message emit hcount with ⟨hrefused, heq⟩ |
    ⟨begun, transfer, stop, -, -, hstream, hsequence, rfl, hsigns, houtcome⟩
  · rw [heq] at hsend
    exact absurd hsend hrefused
  · obtain ⟨-, rfl⟩ := houtcome.status.resolve_right fun h => by
      rw [hsend] at h
      cases h.1
    refine ⟨transfer, hstream, hsequence, rfl, fun call hcall => ⟨?_, ?_⟩, fun index hindex => ?_⟩
    · exact houtcome.carries_of_mem (hfrom call hcall)
    · exact not_refuses_of_accepts hsigns fun hflag => haccepts hflag call hcall
    · obtain ⟨block, hblock, hcarries⟩ := houtcome.exists_block (Nat.zero_le index) hindex
      obtain ⟨call, hcall, rfl⟩ := hall block hblock
      exact ⟨call, hcall, hcarries⟩

end

/-- The blocks of a successful send, in any order and with any duplicates, deliver its message once
to a fresh receiver. The message is the one that was sent, except that the receiver says 1 for every
authenticated flag that is not zero. -/
theorem loopback_delivers_once (sign : Option LmAirSign) (emit : Nat → LmAirBlock → LmAirStatus)
    (tx : LmAirTx) (message : LmAirMessage) (calls : List BlockCall)
    (hsend : (lmAirTxSend sign emit tx message).2.1 = .ok)
    (hcount : divCeil (envelopeLen message) tx.profile.fragmentPayloadBytes.toNat ≤
      lmAirMaxFragments)
    (haccepts : message.authenticated ≠ 0 → ∀ call ∈ calls, call.1.Accepts sign)
    (hfrom : ∀ call ∈ calls, call.2 ∈ (lmAirTxSend sign emit tx message).2.2)
    (hall : ∀ block ∈ (lmAirTxSend sign emit tx message).2.2, ∃ call ∈ calls, call.2 = block) :
    deliveries lmAirRxInit calls = [⟨tx.streamId, tx.nextSequence, message.delivered⟩] := by
  obtain ⟨transfer, hstream, hsequence, rfl, hfed, hcovers⟩ :=
    send_feeds hsend hcount haccepts hfrom hall
  rw [← hstream, ← hsequence]
  exact pending_run (pending_init transfer) hfed fun index hindex => Or.inr (hcovers index hindex)

/-! ## A tagged message -/

/-- A tag of some bytes in the place of a signature. -/
def xorTag (data : List UInt8) : Vector UInt8 lmAirSignatureBytes :=
  Vector.replicate lmAirSignatureBytes (data.foldl (· ^^^ ·) 0)

/-- A sign hook that gives the tag. -/
def tagSign : LmAirSign := fun data => (0, xorTag data)

/-- Callbacks that check the tag. -/
def tagCallbacks : LmAirRxCallbacks where
  verify := some fun data signature => if signature = (xorTag data).toList then 0 else -1
  receive := fun _ => .ok

/-- The callbacks accept what the sign hook gives. -/
theorem tag_callbacks_accept : tagCallbacks.Accepts (some tagSign) := by
  intro hook data signature hsign hanswer
  obtain rfl := Option.some.inj hsign
  obtain rfl : xorTag data = signature := congrArg Prod.snd hanswer
  exact ⟨_, rfl, if_pos rfl⟩

/-- A message for the tag. -/
def taggedMessage (authenticated : UInt8) : LmAirMessage :=
  ⟨1, 2, 3, 4, 0, 5, Vector.replicate 16 9, [1, 2, 3], authenticated, by decide⟩

/-- The send of a tagged message in two coded and interleaved blocks. -/
def taggedSend (authenticated : UInt8) : LmAirTx × LmAirStatus × List LmAirBlock :=
  lmAirTxSend (some tagSign) (fun _ _ => .ok) (.fresh 3 7 ⟨2, 64, 1, 8⟩ rfl)
    (taggedMessage authenticated)

/-- The calls for some blocks. -/
def tagCalls (blocks : List LmAirBlock) : List BlockCall :=
  blocks.map fun block => (tagCallbacks, block)

/-- The calls for some blocks. -/
theorem mem_tag_calls {blocks : List LmAirBlock} {call : BlockCall} :
    call ∈ tagCalls blocks ↔ call.1 = tagCallbacks ∧ call.2 ∈ blocks := by
  rw [tagCalls, List.mem_map]
  constructor
  · rintro ⟨block, hmem, rfl⟩
    exact ⟨rfl, hmem⟩
  · rintro ⟨hcallbacks, hmem⟩
    exact ⟨call.2, hmem, Prod.ext hcallbacks.symm rfl⟩

/-- Every one of the calls accepts the tag. -/
theorem accepts_of_mem_tag_calls {blocks : List LmAirBlock} :
    ∀ call ∈ tagCalls blocks, call.1.Accepts (some tagSign) := by
  intro call hcall
  rw [(mem_tag_calls.mp hcall).1]
  exact tag_callbacks_accept

/-- The blocks of a message in reverse order, and all again, deliver it once. -/
theorem loopback_delivers_once_backwards :
    deliveries lmAirRxInit (tagCalls ((taggedSend 1).2.2.reverse ++ (taggedSend 1).2.2)) =
      [⟨3, 7, taggedMessage 1⟩] := by
  have hcount : divCeil (envelopeLen (taggedMessage 1)) 64 ≤ lmAirMaxFragments := by decide
  have hsend : (taggedSend 1).2.1 = .ok := by
    unfold taggedSend
    exact send_ok hcount (by decide) fun _ _ => rfl
  generalize hcalls : tagCalls ((taggedSend 1).2.2.reverse ++ (taggedSend 1).2.2) = calls
  have haccepts : ∀ call ∈ calls, call.1.Accepts (some tagSign) :=
    hcalls ▸ accepts_of_mem_tag_calls
  have hfrom : ∀ call ∈ calls, call.2 ∈ (taggedSend 1).2.2 := by
    intro call hcall
    rw [← hcalls] at hcall
    rcases List.mem_append.mp (mem_tag_calls.mp hcall).2 with hmem | hmem
    · exact List.mem_reverse.mp hmem
    · exact hmem
  have hall : ∀ block ∈ (taggedSend 1).2.2, ∃ call ∈ calls, call.2 = block := by
    intro block hblock
    rw [← hcalls]
    exact ⟨(tagCallbacks, block), mem_tag_calls.mpr ⟨rfl, List.mem_append_right _ hblock⟩, rfl⟩
  unfold taggedSend at hsend hfrom hall
  exact loopback_delivers_once _ _ _ _ calls hsend hcount (fun _ => haccepts) hfrom hall

/-- An authenticated flag that is neither zero nor one is not delivered as it was sent. -/
theorem loopback_normalizes_flag :
    ¬ ∀ (sign : Option LmAirSign) (emit : Nat → LmAirBlock → LmAirStatus) (tx : LmAirTx)
      (message : LmAirMessage) (calls : List BlockCall),
      (lmAirTxSend sign emit tx message).2.1 = .ok →
      divCeil (envelopeLen message) tx.profile.fragmentPayloadBytes.toNat ≤ lmAirMaxFragments →
      (message.authenticated ≠ 0 → ∀ call ∈ calls, call.1.Accepts sign) →
      (∀ call ∈ calls, call.2 ∈ (lmAirTxSend sign emit tx message).2.2) →
      (∀ block ∈ (lmAirTxSend sign emit tx message).2.2, ∃ call ∈ calls, call.2 = block) →
      deliveries lmAirRxInit calls = [⟨tx.streamId, tx.nextSequence, message⟩] := by
  intro hclaim
  have hcount : divCeil (envelopeLen (taggedMessage 2)) 64 ≤ lmAirMaxFragments := by decide
  have hsend : (taggedSend 2).2.1 = .ok := by
    unfold taggedSend
    exact send_ok hcount (by decide) fun _ _ => rfl
  have haccepts : ∀ call ∈ tagCalls (taggedSend 2).2.2, call.1.Accepts (some tagSign) :=
    accepts_of_mem_tag_calls
  have hfrom : ∀ call ∈ tagCalls (taggedSend 2).2.2, call.2 ∈ (taggedSend 2).2.2 :=
    fun call hcall => (mem_tag_calls.mp hcall).2
  have hall : ∀ block ∈ (taggedSend 2).2.2,
      ∃ call ∈ tagCalls (taggedSend 2).2.2, call.2 = block :=
    fun block hblock => ⟨(tagCallbacks, block), mem_tag_calls.mpr ⟨rfl, hblock⟩, rfl⟩
  generalize tagCalls (taggedSend 2).2.2 = calls at haccepts hfrom hall
  unfold taggedSend at hsend hfrom hall
  obtain ⟨transfer, -, -, hmessage, hfed, hcovers⟩ := send_feeds hsend hcount
    (fun _ => haccepts) hfrom hall
  have hdelivered := pending_run (pending_init transfer) hfed fun index hindex =>
    Or.inr (hcovers index hindex)
  have hsent := hclaim _ _ _ _ _ hsend hcount (fun _ => haccepts) hfrom hall
  have hflags := congrArg (List.map fun delivery => delivery.message.authenticated)
    (hdelivered.symm.trans hsent)
  rw [List.map_singleton, List.map_singleton, hmessage] at hflags
  have hone : [(1 : UInt8)] = [2] := hflags
  exact absurd hone (by decide)

end LatentMesh.AirC
