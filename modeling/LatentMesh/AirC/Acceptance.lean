import LatentMesh.AirC.Compaction
import LatentMesh.AirC.EnvelopeAgreement
import LatentMesh.AirC.Ingest
import LatentMesh.AirRadio.Gate
import LatentMesh.Lib.Transition

/-!
# What `deliver_slot` accepts

The compaction loop moves the fragments of a slot to the start of the array that holds them. What it
wrote always ends before the first fragment that it has not copied (`compaction_step`), so the
fragments are joined in order (`compaction`). `deliver_slot` passes a message on exactly when the
Rust receiver reads the same envelope from the joined bytes: see `deliver_slot_accepts`.
-/

namespace LatentMesh.AirC

open LatentMesh.Lib LatentMesh.AirCore LatentMesh.AirRadio

/-! ## Checked slots -/

/-- The metadata of a slot and the lengths of its fragments come from frames that
`lm_air_frame_decode` accepted. -/
structure LmAirReassemblySlot.Checked (slot : LmAirReassemblySlot) : Prop extends slot.Fits where
  count_pos : 0 < slot.fragmentCount.toNat
  class_le : slot.classId ≤ lmAirClassDiagnostic
  priority_le : slot.priority ≤ 0x0f

/-- Every slot in use is checked. -/
def LmAirRx.Checked (rx : LmAirRx) : Prop :=
  ∀ i : Fin lmAirRxReassemblySlots, (rx.slots.get i).used = true → (rx.slots.get i).Checked

/-- What `lm_air_frame_decode` checks of a frame. -/
theorem decoded_frame {wire : List UInt8} {frame : LmAirFrame}
    (h : (lmAirFrameDecode wire).2 = some frame) :
    validateFrame frame = .ok ∧ frame.payloadLen.toNat ≤ lmAirMaxFramePayload := by
  unfold lmAirFrameDecode at h
  dsimp only at h
  split_ifs at h with hbounds hmarker hlength hcrc hvalid
  obtain rfl := Option.some.inj h
  rw [not_not] at hlength hvalid
  rw [not_or, Nat.not_lt, Nat.not_lt] at hbounds
  have hmost := hbounds.2
  refine ⟨hvalid, ?_⟩
  simp only [lmAirFrameHeaderBytes, lmAirFrameCrcBytes, lmAirMaxWireBytes,
    lmAirMaxFramePayload] at hlength hmost ⊢
  omega

section

variable {slot : LmAirReassemblySlot} {frame : LmAirFrame} {rx rx' middle : LmAirRx}
  {i : Fin lmAirRxReassemblySlots} {callbacks : LmAirRxCallbacks} {status : LmAirStatus}
  {delivery : Option LmAirDelivery}

/-- A slot that is set up for a valid frame is within the bounds. -/
theorem checked_allocated (hvalid : validateFrame frame = .ok) (clock : UInt32) :
    (LmAirReassemblySlot.allocated frame clock).Checked := by
  obtain ⟨⟨-, -, hclass, hpriority⟩, hcount, hmost, -⟩ := validate_frame_eq_ok_iff.mp hvalid
  refine ⟨⟨UInt8.le_iff_toNat_le.mp hmost, fun index _ => ?_⟩,
    Nat.pos_of_ne_zero fun hzero => hcount (UInt8.toNat_inj.mp hzero), hclass, hpriority⟩
  change ((List.replicate lmAirMaxFragments 0).getD index 0 : UInt8).toNat ≤ _
  rw [List.getD_eq_getElem?_getD, List.getElem?_replicate]
  split <;> exact Nat.zero_le _

/-- A stored fragment of a valid frame keeps the slot within the bounds. -/
theorem LmAirReassemblySlot.Checked.store (h : slot.Checked)
    (hlength : frame.payloadLen.toNat ≤ lmAirMaxFramePayload) (clock : UInt32) :
    (slot.store frame clock).Checked := by
  refine ⟨⟨h.count_le, fun index hindex => ?_⟩, h.count_pos, h.class_le, h.priority_le⟩
  change ((slot.fragmentLen.set frame.fragmentIndex.toNat frame.payloadLen).getD index 0).toNat ≤ _
  rw [List.getD_eq_getElem?_getD, List.getElem?_set]
  split
  · split
    · exact hlength
    · exact Nat.zero_le _
  · rw [← List.getD_eq_getElem?_getD]
    exact h.length_le index hindex

/-- Writing a checked slot keeps the slots checked. -/
theorem LmAirRx.Checked.set (hrx : rx.Checked)
    (hslots : rx'.slots = rx.slots.set i slot i.isLt) (hslot : slot.used = true → slot.Checked) :
    rx'.Checked := by
  intro j
  rw [hslots]
  exact forall_get_set (P := fun slot : LmAirReassemblySlot => slot.used = true → slot.Checked)
    (fun j => hrx j) i hslot j

/-- Finding or setting up a slot keeps all slots within the bounds. -/
theorem SlotOutcome.checked (h : SlotOutcome rx frame middle i) (hrx : rx.Checked)
    (hvalid : validateFrame frame = .ok) : middle.Checked := by
  cases h with
  | found hslot => exact hrx
  | allocated hnone hslots hreplay =>
      exact hrx.set hslots fun _ => checked_allocated hvalid _

/-- A decoded frame keeps the slots checked, and what it delivers comes from a checked slot. -/
theorem FrameOutcome.checked (h : FrameOutcome callbacks rx frame rx' status delivery)
    (hrx : rx.Checked) (hvalid : validateFrame frame = .ok)
    (hlength : frame.payloadLen.toNat ≤ lmAirMaxFramePayload) :
    rx'.Checked ∧ ∀ delivered, delivery = some delivered → ∃ before slot,
      slot.Checked ∧ (deliverSlot callbacks before slot frame.flags).2.2 = some delivered := by
  have hkept : ∀ middle : LmAirRx, rx'.slots = middle.slots → middle.Checked → rx'.Checked := by
    intro middle hslots hmiddle j hused
    rw [hslots] at hused ⊢
    exact hmiddle j hused
  cases h with
  | replay hseen hslots hreplay => exact ⟨hkept _ hslots hrx, fun _ hnone => by cases hnone⟩
  | mismatch hfresh hslot hdiffers hslots hreplay =>
      exact ⟨hkept _ hslots (hslot.checked hrx hvalid), fun _ hnone => by cases hnone⟩
  | duplicate hfresh hslot hsame hhas hslots hreplay =>
      exact ⟨hkept _ hslots (hslot.checked hrx hvalid), fun _ hnone => by cases hnone⟩
  | stored hfresh hslot hsame hnew hmore hslots hreplay =>
      have hmiddle := hslot.checked hrx hvalid
      refine ⟨hmiddle.set hslots fun _ => ?_, fun _ hnone => by cases hnone⟩
      exact (hmiddle _ hslot.collects.1).store hlength _
  | @completed middle before i clock hfresh hslot hsame hnew hcomplete hbefore hslots hreplay =>
      have hmiddle := hslot.checked hrx hvalid
      refine ⟨hmiddle.set hslots fun hused => absurd hused (by decide), fun delivered hsome =>
        ⟨before, _, (hmiddle _ hslot.collects.1).store hlength clock, hsome⟩⟩

/-- A call of one of the two ingest functions. -/
inductive RxInput where
  | wire (wire : List UInt8)
  | block (block : LmAirBlock)

/-- The two entry points of the receiver. -/
def LmAirRx.ingest (callbacks : LmAirRxCallbacks) (rx : LmAirRx) :
    RxInput → LmAirRx × LmAirStatus × Option LmAirDelivery
  | .wire wire => lmAirRxIngestWire callbacks rx wire
  | .block block => lmAirRxIngestBlock callbacks rx block

/-- A call that may change a receiver. -/
inductive RxStep : LmAirRx → LmAirRx → Prop where
  | ingest (callbacks : LmAirRxCallbacks) (rx : LmAirRx) (input : RxInput) :
      RxStep rx (rx.ingest callbacks input).1
  | reset (rx : LmAirRx) : RxStep rx (lmAirRxReset rx)

/-- The slots of a new receiver are within the bounds. -/
theorem checked_init : lmAirRxInit.Checked := by
  intro i hused
  rw [show lmAirRxInit.slots.get i = .zero from Vector.getElem_replicate ..] at hused
  cases hused

/-- An ingest call rejects its input, or takes in a decoded frame. -/
theorem ingest_cases (callbacks : LmAirRxCallbacks) (rx : LmAirRx) (input : RxInput) :
    ((rx.ingest callbacks input).1.slots = rx.slots ∧ (rx.ingest callbacks input).2.2 = none) ∨
    ∃ wire frame, (lmAirFrameDecode wire).2 = some frame ∧
      rx.ingest callbacks input = ingestDecoded callbacks rx frame := by
  cases input with
  | wire wire =>
      cases hdecode : (lmAirFrameDecode wire).2 with
      | none =>
          refine Or.inl ?_
          rw [LmAirRx.ingest, ingest_wire_of_reject hdecode]
          exact ⟨rfl, rfl⟩
      | some frame => exact Or.inr ⟨wire, frame, hdecode, ingest_wire_of_decode hdecode _ _⟩
  | block block =>
      rw [LmAirRx.ingest, lmAirRxIngestBlock]
      split
      · exact Or.inl ⟨by split <;> rfl, rfl⟩
      · rename_i raw _
        split
        · exact Or.inl ⟨rfl, rfl⟩
        · rename_i hdecode
          split
          · exact Or.inl ⟨rfl, rfl⟩
          · exact Or.inr ⟨raw, _, by rw [hdecode], rfl⟩

/-- Every input keeps the slots within the bounds, and only a slot within them is delivered. -/
theorem ingest_checked (hrx : rx.Checked) (input : RxInput) :
    (rx.ingest callbacks input).1.Checked ∧
      ∀ delivered, (rx.ingest callbacks input).2.2 = some delivered →
        ∃ before slot outerFlags, slot.Checked ∧
          (deliverSlot callbacks before slot outerFlags).2.2 = some delivered := by
  rcases ingest_cases callbacks rx input with ⟨hslots, hnone⟩ | ⟨wire, frame, hdecode, heq⟩
  · refine ⟨fun j hused => ?_, fun delivered hsome => ?_⟩
    · rw [hslots] at hused ⊢
      exact hrx j hused
    · rw [hnone] at hsome
      cases hsome
  · obtain ⟨hvalid, hlength⟩ := decoded_frame hdecode
    rw [heq]
    obtain ⟨hchecked, hdelivers⟩ :=
      (ingest_decoded_outcome callbacks rx frame).checked hrx hvalid hlength
    refine ⟨hchecked, fun delivered hsome => ?_⟩
    obtain ⟨before, slot, hslot, hdelivered⟩ := hdelivers delivered hsome
    exact ⟨before, slot, frame.flags, hslot, hdelivered⟩

/-- In every run, `deliver_slot` passes on messages of checked slots only. -/
theorem delivers_checked_slots (h : Reachable RxStep lmAirRxInit rx) (input : RxInput)
    {delivered : LmAirDelivery} (hdelivered : (rx.ingest callbacks input).2.2 = some delivered) :
    ∃ before slot outerFlags, slot.Checked ∧
      (deliverSlot callbacks before slot outerFlags).2.2 = some delivered := by
  have hchecked : rx.Checked := h.invariant LmAirRx.Checked checked_init fun _ _ hrx hstep => by
    cases hstep with
    | ingest callbacks _ input => exact (ingest_checked hrx input).1
    | reset => exact checked_init
  exact (ingest_checked hchecked input).2 delivered hdelivered

end

/-! ## Decoding -/

/-- Bytes with the fields of an envelope are decoded. -/
theorem decode_of_fields {input : List UInt8} {authenticated : Bool}
    {semanticClass : SemanticClass} (hlength : envelopeHeaderBytes ≤ input.length)
    (hmost : input.length ≤ maxMessageBytes) (hmagic : input.take 4 = envelopeMagic)
    (hversion : input.getD 4 0 = envelopeVersion)
    (hflag : input.getD 5 0 = if authenticated then 1 else 0)
    (hclass : semanticClass.toU8 = input.getD 6 0) (hpriority : input.getD 7 0 ≤ 15)
    (hreserved : input.getD 47 0 = 0)
    (hsignature : (input.getD 46 0).toNat = if authenticated then envelopeSignatureBytes else 0)
    (htotal : input.length = envelopeHeaderBytes +
      (u16OfBe [input.getD 28 0, input.getD 29 0]).toNat + (input.getD 46 0).toNat) :
    ∃ envelope, SemanticEnvelope.decode input = .ok envelope ∧
      envelope.semanticClass = semanticClass ∧ envelope.priority = input.getD 7 0 ∧
      envelope.stateHash = SemanticEnvelope.arrayAt 16 30 input ∧
      envelope.signature.isSome = authenticated := by
  have hauthenticated := SemanticEnvelope.authenticated_flag_eq_ok_iff.mpr hflag
  have hagree : ¬ ((authenticated = true ∧ (input.getD 46 0).toNat ≠ envelopeSignatureBytes) ∨
      (¬ authenticated = true ∧ (input.getD 46 0).toNat ≠ 0)) := by
    rw [hsignature]
    cases authenticated <;> simp
  have hbodyLen := (u16OfBe [input.getD 28 0, input.getD 29 0]).toNat_lt
  dsimp only [SemanticEnvelope.decode]
  rw [if_neg (by omega), if_neg (by omega), if_neg (not_not.mpr hmagic),
    if_neg (not_not.mpr hversion), hauthenticated, SemanticClass.try_from_eq_ok_iff.mpr hclass]
  dsimp only [Except.bind]
  rw [if_neg (not_or.mpr ⟨UInt8.not_lt.mpr hpriority, not_not.mpr hreserved⟩), if_neg hagree,
    if_neg (not_not.mpr htotal.symm)]
  generalize (u16OfBe [input.getD 28 0, input.getD 29 0]).toNat = bodyLen at *
  rw [SemanticEnvelope.validate_eq_ok_iff (u := ()) |>.mpr]
  · refine ⟨_, rfl, rfl, rfl, rfl, ?_⟩
    cases authenticated <;> rfl
  · refine ⟨hpriority, ?_, ?_⟩
    · dsimp only
      rw [section_length (by omega)]
      omega
    · rw [SemanticEnvelope.encodedLen, SemanticEnvelope.signatureLen]
      dsimp only
      rw [section_length (by omega), Nat.add_sub_cancel_left]
      cases authenticated with
      | false => exact Nat.le_trans (Nat.le_of_eq (hsignature ▸ htotal.symm)) hmost
      | true => exact Nat.le_trans (Nat.le_of_eq (hsignature ▸ htotal.symm)) hmost

/-! ## The Rust receiver on the same bytes -/

/-- A reassembled Rust message with the bytes and the outer metadata of a slot. -/
structure SameReceived (slot : LmAirReassemblySlot) (outerFlags : UInt8)
    (received : ReceivedMessage) : Prop where
  bytes : received.bytes = slot.joined slot.fragmentCount.toNat
  semanticClass : received.semanticClass.toU8 = slot.classId
  priority : received.priority = slot.priority
  stateTag : received.stateTag = slot.stateTag
  signed : ReceivedMessage.signed received = true ↔ outerFlags &&& lmAirFlagAuthenticated ≠ 0

/-- The verifiers of the two sides are both missing, or they give the same answers. -/
def SameAnswers (verify : Option (List UInt8 → List UInt8 → Int))
    (verifier : Option EnvelopeVerifier) : Prop :=
  Option.Rel (fun hook oracle => ∀ material (signature : Signature),
    oracle material signature = true ↔ hook material signature.toList = 0) verify verifier

/-- The Rust receiver reads an envelope from a message, and accepts its signature if it has one. -/
def RustAccepts (received : ReceivedMessage) (verifier : Option EnvelopeVerifier)
    (envelope : SemanticEnvelope) : Prop :=
  received.semanticEnvelope = .ok envelope ∧
    (envelope.signature.isSome = true →
      ∃ oracle, verifier = some oracle ∧ received.verifiedEnvelope oracle = .ok envelope)

section

variable {callbacks : LmAirRxCallbacks} {slot : LmAirReassemblySlot} {outerFlags : UInt8}
  {received : ReceivedMessage} {verifier : Option EnvelopeVerifier} {message : LmAirMessage}
  {envelope : SemanticEnvelope}

/-- The compaction assembles the envelope that the Rust receiver reads. -/
theorem assembles_of_envelope (hfits : slot.Fits) (hsame : SameReceived slot outerFlags received)
    (henvelope : received.semanticEnvelope = .ok envelope)
    (hmessage : SameMessage message envelope) :
    slot.Assembles message envelope.signatureBytes := by
  obtain ⟨hdecode, hclass, hpriority, htag, -⟩ :=
    ReceivedMessage.semantic_envelope_eq_ok_iff.mp henvelope
  have hjoined : slot.joined slot.fragmentCount.toNat =
      envelopeBytes message envelope.signatureBytes := by
    rw [hmessage.envelope_bytes_eq, ← hsame.bytes]
    exact (SemanticEnvelope.wire_of_decode hdecode).2
  obtain ⟨assembled, total, hcompact, hcompacted⟩ := hfits.compaction le_rfl
  obtain rfl := hcompacted.total_eq
  have hread := hcompacted.joined
  rw [hjoined] at hcompact hread
  refine ⟨⟨assembled, hcompact, hread⟩, ?_, ?_, ?_⟩
  · rw [hmessage.classId, hclass, hsame.semanticClass]
  · rw [hmessage.priority, hpriority, hsame.priority]
  · rw [hmessage.stateHash, get_state_tag, htag, hsame.stateTag]

/-- The two verifiers agree on the envelope. -/
theorem refuses_iff (hanswers : SameAnswers callbacks.verify verifier)
    (henvelope : received.semanticEnvelope = .ok envelope)
    (hmessage : SameMessage message envelope) (hsigned : envelope.signature.isSome = true) :
    callbacks.refuses message envelope.signatureBytes = true ↔
      ¬ ∃ oracle, verifier = some oracle ∧ received.verifiedEnvelope oracle = .ok envelope := by
  obtain ⟨signature, hsignature⟩ := Option.isSome_iff_exists.mp hsigned
  have hvalid := (SemanticEnvelope.wire_of_decode
    (ReceivedMessage.semantic_envelope_eq_ok_iff.mp henvelope).1).1
  have hmaterial : envelope.authenticationBytes = .ok (canonicalBytes message) :=
    SemanticEnvelope.authentication_bytes_eq_ok_iff.mpr
      ⟨hsigned, hvalid, hmessage.canonical_bytes_eq⟩
  have hbytes : envelope.signatureBytes = signature.toList := by
    rw [SemanticEnvelope.signatureBytes, hsignature]
  have hverified : ∀ oracle : EnvelopeVerifier, received.verifiedEnvelope oracle = .ok envelope ↔
      oracle (canonicalBytes message) signature = true := by
    intro oracle
    rw [ReceivedMessage.verifiedEnvelope, henvelope]
    dsimp only [Except.bind]
    rw [hsignature, hmaterial]
    dsimp only [Except.bind]
    rw [Lib.guard_eq_ok_iff, not_not, and_iff_left rfl]
  rw [LmAirRxCallbacks.refuses, hbytes]
  cases hverify : callbacks.verify with
  | none =>
      rw [hverify] at hanswers
      cases hanswers
      refine iff_of_true rfl ?_
      rintro ⟨oracle, hnone, -⟩
      cases hnone
  | some hook =>
      rw [hverify] at hanswers
      cases hanswers with
      | some hagree =>
          rename_i oracle
          have hanswer := (hverified oracle).trans (hagree (canonicalBytes message) signature)
          simp only [Option.some.injEq, exists_eq_left', decide_eq_true_eq, hanswer, ne_eq]

/-- What the C receiver makes of bytes from which the Rust receiver reads an envelope. -/
theorem slot_message_of_envelope (hfits : slot.Fits)
    (hsame : SameReceived slot outerFlags received)
    (hanswers : SameAnswers callbacks.verify verifier)
    (henvelope : received.semanticEnvelope = .ok envelope)
    (hmessage : SameMessage message envelope) {result : LmAirMessage} :
    slotMessage callbacks slot outerFlags = .ok result ↔
      RustAccepts received verifier envelope ∧ message.delivered = result := by
  have hflags : outerFlags &&& lmAirFlagAuthenticated ≠ 0 ↔ message.authenticated ≠ 0 := by
    rw [hmessage.authenticated, ← hsame.signed,
      (ReceivedMessage.semantic_envelope_eq_ok_iff.mp henvelope).2.2.2.2]
  have hearly : (.error (.errAuth, true) : Except (LmAirStatus × Bool) LmAirMessage) ≠
      .ok result := fun h => nomatch h
  rw [slot_message_envelope callbacks (assembles_of_envelope hfits hsame henvelope hmessage)
    ((SemanticEnvelope.signature_bytes_length envelope).trans hmessage.signature_len.symm) hflags,
    guard_eq_iff hearly, RustAccepts, hmessage.authenticated]
  simp only [henvelope, true_and, not_and, Except.ok.injEq]
  refine and_congr_left' (forall_congr' fun hsigned => ?_)
  rw [refuses_iff hanswers henvelope hmessage hsigned, not_not]

/-- A flags byte without reserved bits is the authentication flag. -/
theorem flag_byte_eq {byte : UInt8} (h : byte &&& ~~~ lmAirSemanticFlagAuth = 0) :
    byte = if decide (byte &&& lmAirSemanticFlagAuth ≠ 0) then 1 else 0 := by
  revert byte
  rw [byte_forall_iff]
  decide +kernel

/-- What the C receiver accepts is an envelope for the Rust receiver. -/
theorem envelope_of_slot_message (hchecked : slot.Checked)
    (hsame : SameReceived slot outerFlags received)
    (h : slotMessage callbacks slot outerFlags = .ok message) :
    ∃ envelope, received.semanticEnvelope = .ok envelope := by
  obtain ⟨assembled, total, hcompact, hcompacted⟩ := hchecked.toFits.compaction le_rfl
  have hbytes : received.bytes = assembled.take total := by
    rw [hsame.bytes, ← hcompacted.joined]
    rfl
  have htotal : total ≤ lmAirMaxAssembledBytes := by
    have hle := Nat.mul_le_mul_right lmAirMaxFramePayload hchecked.count_le
    rw [lmAirMaxAssembledBytes, Nat.mul_comm]
    exact Nat.le_trans hcompacted.total_le hle
  have hlength : received.bytes.length = total := by
    rw [hbytes, List.length_take, hcompacted.size, Nat.min_eq_left htotal]
  have hearly : ∀ early,
      (.error early : Except (LmAirStatus × Bool) LmAirMessage) ≠ .ok message := by
    intro early heq
    cases heq
  unfold slotMessage at h
  rw [hcompact] at h
  dsimp only at h
  rw [guard_eq_iff (hearly _), guard_eq_iff (hearly _), guard_eq_iff (hearly _),
    guard_eq_iff (hearly _), guard_eq_iff (hearly _)] at h
  obtain ⟨hheader, hreserved, hlengths, hagree, -, -⟩ := h
  simp only [not_or, not_not, Nat.not_lt] at hheader hreserved hlengths hagree
  obtain ⟨hroom, h0, h1, h2, h3, hversion, hzero, hclass, hpriority, htag⟩ := hheader
  obtain ⟨hexpected, hsignature⟩ := hlengths
  have hfront : 48 ≤ received.bytes.length := by
    rw [hlength]
    exact hroom
  -- the header is read from the assembled bytes alone
  have hget : ∀ i < 48, received.bytes.getD i 0 = assembled.getD i 0 := by
    intro i hi
    rw [hbytes, List.getD_eq_getElem?_getD, List.getD_eq_getElem?_getD,
      List.getElem?_take_of_lt (Nat.lt_of_lt_of_le hi hroom)]
  have hpair : ∀ i, i + 2 ≤ 48 → getU16Be (assembled.drop i) =
      u16OfBe [received.bytes.getD i 0, received.bytes.getD (i + 1) 0] := by
    intro i hi
    rw [hget i (by omega), hget (i + 1) (by omega), ← get_u16_be_eq _ _ []]
    simp only [getU16Be, List.getD_eq_getElem?_getD, List.getElem?_drop, Nat.add_zero]
    rfl
  have hmagic : received.bytes.take 4 = envelopeMagic := by
    have hquad : received.bytes.take 4 = [received.bytes.getD 0 0, received.bytes.getD 1 0,
        received.bytes.getD 2 0, received.bytes.getD 3 0] := by
      rw [take_pair (show 2 + 2 ≤ received.bytes.length by omega),
        take_pair (show 0 + 2 ≤ received.bytes.length by omega)]
      rfl
    rw [hquad, hget 0 (by omega), hget 1 (by omega), hget 2 (by omega), hget 3 (by omega), h0, h1,
      h2, h3]
    rfl
  have hflag : received.bytes.getD 5 0 =
      if decide ((received.bytes.getD 46 0).toNat = lmAirSignatureBytes) then 1 else 0 := by
    rw [hget 5 (by omega), hget 46 (by omega), ← hagree.1]
    exact flag_byte_eq hreserved
  have hsigns : (received.bytes.getD 46 0).toNat =
      if decide ((received.bytes.getD 46 0).toNat = lmAirSignatureBytes) then
        envelopeSignatureBytes else 0 := by
    by_cases hwhole : (received.bytes.getD 46 0).toNat = lmAirSignatureBytes
    · rw [if_pos (decide_eq_true hwhole), hwhole]
      rfl
    · rw [if_neg (by rw [decide_eq_true_eq]; exact hwhole)]
      rw [hget 46 (by omega)] at hwhole ⊢
      exact by_contra fun hne => hsignature ⟨hne, hwhole⟩
  have hsum : received.bytes.length = envelopeHeaderBytes +
      (u16OfBe [received.bytes.getD 28 0, received.bytes.getD 29 0]).toNat +
        (received.bytes.getD 46 0).toNat := by
    rw [hlength, ← hexpected, ← hpair 28 (by omega), hget 46 (by omega)]
    rfl
  obtain ⟨envelope, hdecode, hclass', hpriority', hhash, hsigned⟩ := decode_of_fields hfront
    (by rw [hlength]; exact htotal) hmagic (by rw [hget 4 (by omega)]; exact hversion) hflag
    (by rw [hget 6 (by omega), hclass]; exact hsame.semanticClass)
    (by rw [hget 7 (by omega), hpriority]; exact hchecked.priority_le)
    (by rw [hget 47 (by omega)]; exact hzero) hsigns hsum
  refine ⟨envelope, ReceivedMessage.semantic_envelope_eq_ok_iff.mpr
    ⟨hdecode, hclass', ?_, ?_, ?_⟩⟩
  · rw [hpriority', hget 7 (by omega), hpriority, hsame.priority]
  · rw [hhash, hsame.stateTag, ← htag, hpair 30 (by omega), stateHashTag,
      SemanticEnvelope.arrayAt, Vector.getElem_ofFn, Vector.getElem_ofFn]
    rfl
  · rw [hsigned, hget 46 (by omega), ← hagree.2, Bool.eq_iff_iff, decide_eq_true_eq]
    exact hsame.signed

/-- The Rust message with the bytes and the outer metadata of a checked slot. -/
theorem exists_same_received (hchecked : slot.Checked) (outerFlags : UInt8) :
    ∃ received, SameReceived slot outerFlags received := by
  obtain ⟨semanticClass, hclass⟩ := exists_semantic_class hchecked.class_le
  have hset : FrameFlags.signedEnvelope.contains FrameFlags.signedEnvelope = true := by decide
  have hclear : ¬ FrameFlags.contains ⟨0, rfl⟩ FrameFlags.signedEnvelope = true := by decide
  by_cases hsigned : outerFlags &&& lmAirFlagAuthenticated ≠ 0
  · exact ⟨⟨⟨.wifi, FrameFlags.signedEnvelope, slot.streamId, slot.sequence, semanticClass,
      slot.priority, slot.stateTag⟩, slot.joined slot.fragmentCount.toNat⟩,
      rfl, hclass, rfl, rfl, iff_of_true hset hsigned⟩
  · exact ⟨⟨⟨.wifi, ⟨0, rfl⟩, slot.streamId, slot.sequence, semanticClass,
      slot.priority, slot.stateTag⟩, slot.joined slot.fragmentCount.toNat⟩,
      rfl, hclass, rfl, rfl, iff_of_false hclear hsigned⟩

/-- The message of an envelope, as the C receiver passes it on. -/
theorem exists_delivered_message (hdecode : SemanticEnvelope.decode received.bytes = .ok envelope) :
    ∃ message, SameMessage message envelope ∧
      message.authenticated = if envelope.signature.isSome then 1 else 0 := by
  have hvalid := (SemanticEnvelope.wire_of_decode hdecode).1
  refine ⟨⟨envelope.sourceId, envelope.epoch, envelope.messageId, envelope.logicalSequence,
    envelope.semanticClass.toU8, envelope.priority, envelope.stateHash, envelope.body,
    if envelope.signature.isSome then 1 else 0, Nat.lt_succ_of_le hvalid.body⟩,
    ⟨rfl, rfl, rfl, rfl, rfl, rfl, rfl, rfl, ?_⟩, rfl⟩
  cases envelope.signature <;> simp

/-- A slot is delivered as the message it is read as. -/
theorem deliver_slot_eq_some_iff (rx : LmAirRx) (delivered : LmAirDelivery) :
    (deliverSlot callbacks rx slot outerFlags).2.2 = some delivered ↔
      ∃ message, slotMessage callbacks slot outerFlags = .ok message ∧
        delivered = ⟨slot.streamId, slot.sequence, message⟩ := by
  unfold deliverSlot
  split
  · rename_i herror
    exact iff_of_false (fun h => nomatch h) fun ⟨_, hmessage, _⟩ => by
      rw [herror] at hmessage
      cases hmessage
  · rename_i message hmessage
    rw [hmessage]
    simp only [Option.some.injEq, Except.ok.injEq, exists_eq_left', eq_comm (a := delivered)]

/-- For every checked slot, the compaction loop joins the fragments in order, and no iteration
changes a fragment that is still to be copied. The Rust receiver can be given the same bytes with
the same outer metadata, and `deliver_slot` passes a message on exactly when the Rust receiver then
reads an envelope with the same fields, whose signature, if it has one, its verifier accepts. -/
theorem deliver_slot_accepts (slot : LmAirReassemblySlot) (hchecked : slot.Checked)
    (outerFlags : UInt8) :
    (∀ done ≤ slot.fragmentCount.toNat, ∃ assembled total,
      compactFragments slot.fragmentLen (List.range done) slot.fragments 0 =
        some (assembled, total) ∧ Compacted slot done assembled total) ∧
    (∃ received, SameReceived slot outerFlags received) ∧
    ∀ received, SameReceived slot outerFlags received → ∀ callbacks verifier,
      SameAnswers callbacks.verify verifier → ∀ rx delivered,
      ((deliverSlot callbacks rx slot outerFlags).2.2 = some delivered ↔
        ∃ envelope message, RustAccepts received verifier envelope ∧
          SameMessage message envelope ∧
          message.authenticated = (if envelope.signature.isSome then 1 else 0) ∧
          delivered = ⟨slot.streamId, slot.sequence, message⟩) := by
  refine ⟨fun done hdone => hchecked.toFits.compaction hdone,
    exists_same_received hchecked outerFlags,
    fun received hsame callbacks verifier hanswers rx delivered => ?_⟩
  have hnormal : ∀ {message : LmAirMessage} {envelope : SemanticEnvelope},
      message.authenticated = (if envelope.signature.isSome then 1 else 0) →
        message.delivered = message := by
    intro message envelope hflag
    rw [LmAirMessage.delivered, hflag]
    obtain ⟨_, _, _, _, _, _, _, _, _, _⟩ := message
    obtain rfl := hflag
    cases envelope.signature <;> rfl
  rw [deliver_slot_eq_some_iff]
  constructor
  · rintro ⟨message, hmessage, rfl⟩
    obtain ⟨envelope, henvelope⟩ := envelope_of_slot_message hchecked hsame hmessage
    obtain ⟨message', hsame', hflag⟩ :=
      exists_delivered_message (ReceivedMessage.semantic_envelope_eq_ok_iff.mp henvelope).1
    obtain ⟨haccepts, rfl⟩ :=
      (slot_message_of_envelope hchecked.toFits hsame hanswers henvelope hsame').mp hmessage
    exact ⟨envelope, message', haccepts, hsame', hflag, by rw [hnormal hflag]⟩
  · rintro ⟨envelope, message, haccepts, hmessage, hflag, rfl⟩
    refine ⟨message, ?_, rfl⟩
    exact (slot_message_of_envelope hchecked.toFits hsame hanswers haccepts.1 hmessage).mpr
      ⟨haccepts, hnormal hflag⟩

end

/-- A diagnostic message. -/
def reportMessage : LmAirMessage :=
  ⟨1, 2, 3, 4, 4, 3, Vector.replicate 16 0, [7, 8, 9, 10, 11], 0, by decide⟩

/-- A slot that holds the message in three fragments, of 24, 24 and 5 bytes. -/
def reportSlot : LmAirReassemblySlot :=
  { LmAirReassemblySlot.zero with
    used := true, fragmentCount := 3, classId := 4, priority := 3
    fragmentLen := 24 :: 24 :: 5 :: List.replicate 29 0
    fragments :=
      writeAt
        (writeAt
          (writeAt (List.replicate lmAirMaxAssembledBytes 0) 0
            ((canonicalBytes reportMessage).take 24))
          240 (((canonicalBytes reportMessage).drop 24).take 24))
        480 ((canonicalBytes reportMessage).drop 48)
    fragment_len_size := by decide
    fragments_size := by simp only [write_at_length, List.length_replicate] }

/-- The message of three fragments is accepted on both sides. -/
theorem deliver_slot_accepts_report : reportSlot.Checked ∧
    ∃ received, SameReceived reportSlot 0 received ∧
      ∃ envelope, RustAccepts received none envelope ∧ SameMessage reportMessage envelope := by
  have hchecked : reportSlot.Checked := by
    have hlengths : ∀ index < 3,
        (reportSlot.fragmentLen.getD index 0).toNat ≤ lmAirMaxFramePayload := by
      decide
    exact ⟨⟨by decide, hlengths⟩, by decide, by decide, by decide⟩
  obtain ⟨-, ⟨received, hsame⟩, haccepts⟩ := deliver_slot_accepts reportSlot hchecked 0
  have hdelivered : (deliverSlot ⟨none, fun _ => .ok⟩ lmAirRxInit reportSlot 0).2.2 =
      some ⟨0, 0, reportMessage⟩ := by decide +kernel
  obtain ⟨envelope, message, hrust, hmessage, -, heq⟩ :=
    (haccepts received hsame ⟨none, fun _ => .ok⟩ none .none lmAirRxInit _).mp hdelivered
  obtain rfl : reportMessage = message := congrArg LmAirDelivery.message heq
  exact ⟨hchecked, received, hsame, envelope, hrust, hmessage⟩

end LatentMesh.AirC
