import LatentMesh.AirC.Assembly

/-!
# Where the fragments of a slot come from

A slot collects fragments that were emitted by sources (`ComesFrom`). An ingest call keeps this and
passes on only what a complete slot is read as (`FrameOutcome.comes_from`). What the fragments of
one message join to is that message (`assembles_same`), and so is what the fragments of sources join
to that cannot be mixed (`assembles_source`). A signed slot that is read as a message joins to bytes
that the verify hook accepts (`slot_message_accepted`).
-/

namespace LatentMesh.AirC

open LatentMesh.Lib LatentMesh.AirCore

/-! ## Slots and sources -/

/-- Every fragment of a slot in use is one of the first fragments of a source: a transfer with the
number of its blocks that were emitted. -/
def LmAirReassemblySlot.ComesFrom (slot : LmAirReassemblySlot)
    (source : Transfer → Nat → Prop) : Prop :=
  slot.used = true → ∀ index, slot.Has index →
    ∃ transfer blocks, source transfer blocks ∧ index < blocks ∧ slot.HoldsFragment transfer index

section

variable {source wider : Transfer → Nat → Prop} {slot : LmAirReassemblySlot} {transfer : Transfer}
  {blocks index : Nat}

/-- More sources explain a slot as well. -/
theorem LmAirReassemblySlot.ComesFrom.mono (h : slot.ComesFrom source)
    (hwider : ∀ transfer blocks, source transfer blocks → wider transfer blocks) :
    slot.ComesFrom wider := by
  intro hused i hi
  obtain ⟨transfer, blocks, hsource, hemitted, hholds⟩ := h hused i hi
  exact ⟨transfer, blocks, hwider _ _ hsource, hemitted, hholds⟩

/-- A slot that is set up has no fragment to explain. -/
theorem comes_from_allocated (frame : LmAirFrame) (clock : UInt32) :
    (LmAirReassemblySlot.allocated frame clock).ComesFrom source :=
  fun _ i hi => absurd hi (not_has_allocated frame clock i)

/-- A frame of a source adds a fragment of that source. -/
theorem LmAirReassemblySlot.ComesFrom.store (h : slot.ComesFrom source)
    (hcollects : slot.Collects (transfer.frame 0)) (hsame : slot.SameMetadata (transfer.frame 0))
    (hsource : source transfer blocks) (hemitted : index < blocks) (hindex : index < transfer.count)
    (clock : UInt32) : (slot.store (transfer.frame index) clock).ComesFrom source := by
  intro _ i hi
  rw [has_stored_iff slot hindex] at hi
  by_cases heq : i = index
  · subst heq
    exact ⟨transfer, blocks, hsource, hemitted,
      holds_fragment_store hcollects hsame hindex clock⟩
  · obtain ⟨other, sent, hother, hsent, hholds⟩ := h hcollects.1 i (hi.resolve_right heq)
    exact ⟨other, sent, hother, hsent, hholds.store hindex heq clock⟩

end

/-! ## Ingest -/

section

variable {source : Transfer → Nat → Prop} {callbacks : LmAirRxCallbacks} {rx rx' : LmAirRx}
  {transfer : Transfer} {blocks index : Nat} {status : LmAirStatus}
  {delivery : Option LmAirDelivery}

/-- Replacing a slot by one with an origin keeps the origin of all. -/
theorem comes_from_set {i : Fin lmAirRxReassemblySlots} {slot : LmAirReassemblySlot}
    (hslots : ∀ j, (rx.slots.get j).ComesFrom source)
    (hset : rx'.slots = rx.slots.set i slot i.isLt) (hslot : slot.ComesFrom source)
    (j : Fin lmAirRxReassemblySlots) : (rx'.slots.get j).ComesFrom source := by
  rw [hset]
  exact forall_get_set (P := fun slot : LmAirReassemblySlot => slot.ComesFrom source) hslots i
    hslot j

/-- Finding or setting up a slot keeps the origin of all. -/
theorem SlotOutcome.comes_from {middle : LmAirRx} {frame : LmAirFrame}
    {i : Fin lmAirRxReassemblySlots} (h : SlotOutcome rx frame middle i)
    (hslots : ∀ j, (rx.slots.get j).ComesFrom source)
    (j : Fin lmAirRxReassemblySlots) : (middle.slots.get j).ComesFrom source := by
  cases h with
  | found hslot => exact hslots j
  | allocated hnone hset hreplay =>
      exact comes_from_set hslots hset (comes_from_allocated frame _) j

/-- A slot that is delivered was read as the message. -/
theorem slot_message_of_deliver {slot : LmAirReassemblySlot} {outerFlags : UInt8}
    {delivered : LmAirDelivery}
    (h : (deliverSlot callbacks rx slot outerFlags).2.2 = some delivered) :
    slotMessage callbacks slot outerFlags = .ok delivered.message := by
  unfold deliverSlot at h
  split at h
  · cases h
  · rename_i message hmessage
    rw [hmessage, ← Option.some.inj h]

/-- A slot holds all fragments of the frame of a transfer, and is read as a message. -/
structure Completes (callbacks : LmAirRxCallbacks) (source : Transfer → Nat → Prop)
    (transfer : Transfer) (slot : LmAirReassemblySlot) (message : LmAirMessage) : Prop where
  used : slot.used = true
  comes_from : slot.ComesFrom source
  metadata : slot.SameMetadata (transfer.frame 0)
  all : ∀ k < transfer.count, slot.Has k
  message : slotMessage callbacks slot transfer.flags = .ok message

/-- A frame of a source keeps the origin of all fragments, and what it delivers comes from a slot
that holds fragments of the sources only. -/
theorem FrameOutcome.comes_from
    (h : FrameOutcome callbacks rx (transfer.frame index) rx' status delivery)
    (hslots : ∀ j, (rx.slots.get j).ComesFrom source)
    (hsource : source transfer blocks) (hemitted : index < blocks)
    (hindex : index < transfer.count) :
    (∀ j, (rx'.slots.get j).ComesFrom source) ∧
      ∀ delivered, delivery = some delivered →
        ∃ slot, Completes callbacks source transfer slot delivered.message := by
  cases h with
  | replay hseen hkeep hreplay =>
      refine ⟨fun j => ?_, fun _ hnone => by cases hnone⟩
      rw [hkeep]
      exact hslots j
  | mismatch hfresh hslot hdiffers hkeep hreplay =>
      refine ⟨fun j => ?_, fun _ hnone => by cases hnone⟩
      rw [hkeep]
      exact hslot.comes_from hslots j
  | duplicate hfresh hslot hsame hhas hkeep hreplay =>
      refine ⟨fun j => ?_, fun _ hnone => by cases hnone⟩
      rw [hkeep]
      exact hslot.comes_from hslots j
  | stored hfresh hslot hsame hnew hmore hset hreplay =>
      refine ⟨comes_from_set (hslot.comes_from hslots) hset ?_, fun _ hnone => by cases hnone⟩
      exact (hslot.comes_from hslots _).store hslot.collects hsame hsource hemitted hindex _
  | @completed middle before i clock _ hslot hsame hnew hcomplete hbefore hset hreplay =>
      refine ⟨comes_from_set (hslot.comes_from hslots) hset ?_, fun delivered hsome => ?_⟩
      · exact fun hused => absurd hused (by decide)
      · exact ⟨middle.slots[i].store (transfer.frame index) clock, hslot.collects.1,
          (hslot.comes_from hslots i).store hslot.collects hsame hsource hemitted hindex clock,
          hsame, fun k hk => ((complete_iff _).mp hcomplete k).mpr hk,
          slot_message_of_deliver hsome⟩

end

/-! ## What the fragments join to -/

section

variable {slot : LmAirReassemblySlot} {sources : Nat → Transfer} {size : Nat}

/-- Fragments of one message join to its envelope, whatever signature it was sent with. -/
theorem assembles_same {message : LmAirMessage} (hpos : 0 < slot.fragmentCount.toNat)
    (hholds : ∀ k < slot.fragmentCount.toNat, slot.HoldsFragment (sources k) k)
    (hsize : ∀ k < slot.fragmentCount.toNat, (sources k).payloadBytes = size)
    (hmessage : ∀ k < slot.fragmentCount.toNat, (sources k).message = message) :
    ∃ signature : List UInt8, signature.length = (signatureLen message).toNat ∧
      slot.Assembles message signature := by
  have hlength : ∀ k < slot.fragmentCount.toNat,
      (sources k).envelope.length = envelopeLen message := by
    intro k hk
    rw [(sources k).envelope_length, hmessage k hk]
  have hfront : ∀ k < slot.fragmentCount.toNat,
      canonicalBytes message <+: (sources k).envelope := by
    intro k hk
    rw [← hmessage k hk]
    exact ⟨(sources k).signature, rfl⟩
  obtain ⟨hjoined, htake⟩ := @flat_map_chunk_front _ size _ _ _ _ hlength hfront
  have hwhole : envelopeLen message ≤ slot.fragmentCount.toNat * size := by
    rw [(hholds 0 hpos).count, ← hlength 0 hpos, ← hsize 0 hpos]
    exact le_div_ceil_mul (sources 0).payload_bytes_pos
  have hcanonical := canonical_bytes_length message
  have hpieces : (List.range slot.fragmentCount.toNat).flatMap
      (fun k => (sources k).fragment k) = (List.range slot.fragmentCount.toNat).flatMap
      (fun k => chunk size (sources k).envelope k) :=
    List.flatMap_congr fun k hk => by rw [Transfer.fragment, hsize k (List.mem_range.mp hk)]
  generalize (List.range slot.fragmentCount.toNat).flatMap
    (fun k => chunk size (sources k).envelope k) = joined at hjoined htake hpieces
  rw [Nat.min_eq_right hwhole, envelopeLen] at hjoined
  rw [envelopeLen] at hwhole
  rw [List.take_of_length_le (l := canonicalBytes message) (by omega)] at htake
  refine ⟨joined.drop (canonicalBytes message).length, by rw [List.length_drop]; omega,
    assembles_of_join hholds hpos (hmessage 0 hpos) ?_⟩
  rw [hpieces, envelopeBytes]
  conv_lhs => rw [← List.take_append_drop (canonicalBytes message).length joined, htake]

/-- Fragments of sources that cannot be mixed join to the envelope of one of them. -/
theorem assembles_source {emitted : Nat → Nat} (hpos : 0 < slot.fragmentCount.toNat)
    (hholds : ∀ k < slot.fragmentCount.toNat, slot.HoldsFragment (sources k) k)
    (hemitted : ∀ k < slot.fragmentCount.toNat, k < emitted k)
    (hapart : ∀ i < slot.fragmentCount.toNat, ∀ k < slot.fragmentCount.toNat,
      (∀ j < emitted i, (sources i).fragment j = (sources k).fragment j) ∨
      (∀ j < emitted k, (sources i).fragment j = (sources k).fragment j) ∨
      ∀ j l, (sources i).fragment j ≠ (sources k).fragment j →
        (sources i).fragment l ≠ (sources k).fragment l → j = l) :
    ∃ whole < slot.fragmentCount.toNat,
      slot.Assembles (sources whole).message (sources whole).signature := by
  obtain ⟨whole, hwhole, hpieces⟩ :=
    @exists_single_source _ _ hpos (fun i => (sources i).fragment) emitted hemitted hapart
  refine ⟨whole, hwhole, assembles_of_join hholds hwhole rfl ?_⟩
  rw [List.flatMap_congr fun k hk => hpieces k (List.mem_range.mp hk), (hholds whole hwhole).count]
  exact (sources whole).fragments_flatten

end

/-! ## Signed messages -/

/-- A slot with a signature that is read as a message holds signed bytes with a signature that the
verify hook accepts, and the message is the one that these bytes are of. -/
theorem slot_message_accepted {callbacks : LmAirRxCallbacks} {slot : LmAirReassemblySlot}
    {outerFlags : UInt8} {message : LmAirMessage} {sources : Nat → Transfer}
    (h : slotMessage callbacks slot outerFlags = .ok message)
    (hsigned : outerFlags &&& lmAirFlagAuthenticated ≠ 0) (hpos : 0 < slot.fragmentCount.toNat)
    (hholds : ∀ k < slot.fragmentCount.toNat, slot.HoldsFragment (sources k) k) :
    ∃ hook data signature, callbacks.verify = some hook ∧ hook data signature = 0 ∧
      signature.length = lmAirSignatureBytes ∧
      (List.range slot.fragmentCount.toNat).flatMap (fun k => (sources k).fragment k) =
        data ++ signature ∧
      ∀ sent : LmAirMessage, data = canonicalBytes sent → message = sent.delivered := by
  have hearly : ∀ early, (.error early : Except (LmAirStatus × Bool) LmAirMessage) ≠ .ok message :=
    fun _ heq => nomatch heq
  obtain ⟨assembled, total, hcompact, hcompacted⟩ := (fits_of_holds hpos hholds).compaction le_rfl
  have hjoined : (List.range slot.fragmentCount.toNat).flatMap (fun k => (sources k).fragment k) =
      readAt assembled 0 total := by
    rw [hcompacted.joined]
    exact List.flatMap_congr fun k hk => (hholds k (List.mem_range.mp hk)).bytes.symm
  have htotal : total ≤ assembled.length := by
    have hlength := congrArg List.length hcompacted.joined
    rw [← hcompacted.total_eq, read_at_zero, List.length_take] at hlength
    omega
  unfold slotMessage at h
  rw [hcompact] at h
  dsimp only at h
  rw [guard_eq_iff (hearly _), guard_eq_iff (hearly _), guard_eq_iff (hearly _),
    guard_eq_iff (hearly _), guard_eq_iff (hearly _)] at h
  obtain ⟨-, -, hlengths, hagree, haccepted, h⟩ := h
  rw [not_or, not_not, not_not, decide_eq_decide, decide_eq_decide] at hagree
  have hlength : (assembled.getD 46 0).toNat = lmAirSignatureBytes := hagree.2.mp hsigned
  have hwhole := not_not.mp (not_or.mp hlengths).1
  rw [hlength] at haccepted hwhole
  cases hverify : callbacks.verify with
  | none =>
      rw [hverify] at haccepted
      exact absurd ⟨by decide, rfl⟩ haccepted
  | some hook =>
      rw [hverify] at haccepted
      have hzero := not_not.mp fun hne => haccepted ⟨by decide, decide_eq_true hne⟩
      refine ⟨hook, _, _, rfl, hzero, ?_, ?_, fun sent hdata => ?_⟩
      · rw [readAt, List.length_take, List.length_drop]
        omega
      · rw [hjoined, ← hwhole, read_at_append, Nat.zero_add]
      · have hsections : assembled = semanticHeader sent (signatureLen sent) ++
            (sent.body ++ assembled.drop (lmAirSemanticHeaderBytes +
              (getU16Be (assembled.drop 28)).toNat)) := by
          rw [← List.append_assoc, ← canonicalBytes, ← hdata, read_at_zero, List.take_append_drop]
        generalize assembled.drop (lmAirSemanticHeaderBytes +
          (getU16Be (assembled.drop 28)).toNat) = rest at hsections
        have hheader := semantic_header_read sent (signatureLen sent) (sent.body ++ rest)
        rw [← hsections] at hheader
        have hbodyLen : sent.bodyLen.toNat = sent.body.length :=
          UInt16.toNat_ofNat_of_lt' sent.body_lt
        have hbody : readAt assembled lmAirSemanticHeaderBytes sent.body.length = sent.body := by
          rw [hsections, readAt, List.drop_left' (semantic_header_length _ _), List.take_left]
        have hhash : (Vector.ofFn fun i : Fin 16 => assembled.getD (30 + i) 0) =
            sent.stateHash := by
          apply Vector.ext
          intro i hi
          rw [Vector.getElem_ofFn]
          exact hheader.stateHash ⟨i, hi⟩
        refine (Except.ok.inj h).symm.trans ?_
        simp only [hheader.signatureLen, hheader.sourceId, hheader.epoch, hheader.messageId,
          hheader.logicalSequence, hheader.classId, hheader.priority, hheader.bodyLen, hbodyLen,
          hbody, hhash, signature_len_present, LmAirMessage.delivered]

end LatentMesh.AirC
