import LatentMesh.AirRadio.Ingest

/-!
# The authentication gate

A run of calls of every entry point of `AirReceiver`, verified and unverified, on arbitrary input.
Each call hands some frames to `ingest_frame_inner` (`AirReceiver.attempts`). What is admitted is
verified and bound (`ReceivedMessage.validate_admission_ok`), a message is made of frames that
were handed in with its flags (`Gathered.message`), and a frame whose message is refused changes no
window (`Attempt.rejected_keeps_windows`). See `authentication_gate`.
-/

namespace LatentMesh.AirRadio

open LatentMesh.AirCore

/-! ## Admission -/

namespace ReceivedMessage

variable {self : ReceivedMessage}

/-- The verifier accepted the signature of the envelope that the message carries. -/
def VerifiedBy (self : ReceivedMessage) (verifier : EnvelopeVerifier) : Prop :=
  ∃ envelope signature authenticationBytes, SemanticEnvelope.decode self.bytes = .ok envelope ∧
    envelope.signature = some signature ∧
    envelope.authenticationBytes = .ok authenticationBytes ∧
    verifier authenticationBytes signature = true

/-- The envelope of a delta message, the delta in its body and the outer metadata agree. -/
structure Agree (self : ReceivedMessage) (envelope : SemanticEnvelope) (delta : SemanticDelta) :
    Prop where
  decoded : SemanticEnvelope.decode self.bytes = .ok envelope
  body : SemanticDelta.decode envelope.body = .ok delta
  semanticClass : envelope.semanticClass = self.semanticClass
  priority : envelope.priority = self.priority
  stateTag : stateHashTag envelope.stateHash = self.stateTag
  resultHash : delta.resultHash = envelope.stateHash
  sourceId : delta.sourceId = envelope.sourceId
  epoch : delta.epoch = envelope.epoch
  messageId : delta.messageId = envelope.messageId

/-- A message is read as an envelope when its bytes decode to one with its class and priority. -/
theorem semantic_envelope_eq_ok_iff {envelope : SemanticEnvelope} :
    semanticEnvelope self = .ok envelope ↔ SemanticEnvelope.decode self.bytes = .ok envelope ∧
      envelope.semanticClass = self.semanticClass ∧ envelope.priority = self.priority ∧
      stateHashTag envelope.stateHash = self.stateTag ∧
      signed self = envelope.signature.isSome := by
  unfold semanticEnvelope
  rw [Lib.bind_eq_ok_iff]
  constructor
  · rintro ⟨decoded, hdecode, hchecks⟩
    obtain ⟨hsame, heq⟩ := Lib.guard_eq_ok_iff.mp hchecks
    obtain rfl := Except.ok.inj heq
    simp only [not_or, not_not] at hsame
    exact ⟨hdecode, hsame⟩
  · rintro ⟨hdecode, hsame⟩
    refine ⟨envelope, hdecode, Lib.guard_eq_ok_iff.mpr ⟨?_, rfl⟩⟩
    simp only [not_or, not_not]
    exact hsame

/-- An envelope that passed the check was read and verified. -/
theorem verified_envelope_ok {verifier : EnvelopeVerifier} {envelope : SemanticEnvelope}
    (h : verifiedEnvelope self verifier = .ok envelope) :
    semanticEnvelope self = .ok envelope ∧ self.VerifiedBy verifier := by
  unfold verifiedEnvelope at h
  obtain ⟨decoded, hdecoded, h⟩ := Lib.bind_eq_ok_iff.mp h
  split at h
  · cases h
  · rename_i signature hsignature
    obtain ⟨authenticationBytes, hbytes, h⟩ := Lib.bind_eq_ok_iff.mp h
    obtain ⟨hverified, heq⟩ := Lib.guard_eq_ok_iff.mp h
    obtain rfl := Except.ok.inj heq
    exact ⟨hdecoded, decoded, signature, authenticationBytes,
      (semantic_envelope_eq_ok_iff.mp hdecoded).1, hsignature, hbytes, not_not.mp hverified⟩

/-- A delta that was read agrees with its message and envelope. -/
theorem delta_from_envelope_ok {envelope : SemanticEnvelope} {delta : SemanticDelta}
    (henvelope : semanticEnvelope self = .ok envelope)
    (h : deltaFromEnvelope self envelope = .ok delta) : self.Agree envelope delta := by
  obtain ⟨hdecode, hclass, hpriority, htag, -⟩ := semantic_envelope_eq_ok_iff.mp henvelope
  unfold deltaFromEnvelope at h
  obtain ⟨-, h⟩ := Lib.guard_eq_ok_iff.mp h
  obtain ⟨unwrapped, hunwrap, h⟩ := Lib.bind_eq_ok_iff.mp h
  obtain ⟨-, heq⟩ := Lib.guard_eq_ok_iff.mp h
  obtain rfl := Except.ok.inj heq
  unfold SemanticEnvelope.unwrapDelta at hunwrap
  obtain ⟨-, hunwrap⟩ := Lib.guard_eq_ok_iff.mp hunwrap
  obtain ⟨decoded, hdelta, hunwrap⟩ := Lib.bind_eq_ok_iff.mp hunwrap
  obtain ⟨hsame, heq⟩ := Lib.guard_eq_ok_iff.mp hunwrap
  obtain rfl := Except.ok.inj heq
  simp only [not_or, not_not] at hsame
  obtain ⟨hsource, hepoch, hmessage, hresult⟩ := hsame
  exact ⟨hdecode, hdelta, hclass, hpriority, htag, hresult, hsource, hepoch, hmessage⟩

/-- What admission means: a signed message was verified, and a delta message agrees with itself. -/
theorem validate_admission_ok {verifier : Option EnvelopeVerifier}
    (h : validateAdmission self verifier = .ok ()) :
    (signed self = true → ∃ oracle, verifier = some oracle ∧ self.VerifiedBy oracle) ∧
      (self.semanticClass = .stateDelta → ∃ envelope delta, self.Agree envelope delta) := by
  unfold validateAdmission at h
  split at h
  · split at h
    · cases h
    · rename_i oracle
      obtain ⟨envelope, henvelope, h⟩ := Lib.bind_eq_ok_iff.mp h
      obtain ⟨hsemantic, hverified⟩ := verified_envelope_ok henvelope
      refine ⟨fun _ => ⟨oracle, rfl, hverified⟩, fun hclass => ?_⟩
      rw [if_pos hclass] at h
      cases hdelta : deltaFromEnvelope self envelope with
      | error error =>
          rw [hdelta] at h
          cases h
      | ok delta => exact ⟨envelope, delta, delta_from_envelope_ok hsemantic hdelta⟩
  · rename_i hunsigned
    refine ⟨fun hsigned => absurd hsigned hunsigned, fun hclass => ?_⟩
    rw [if_pos hclass, validateSemanticBinding] at h
    obtain ⟨envelope, hsemantic, h⟩ := Lib.bind_eq_ok_iff.mp h
    cases hdelta : deltaFromEnvelope self envelope with
    | error error =>
        rw [hdelta] at h
        cases h
    | ok delta => exact ⟨envelope, delta, delta_from_envelope_ok hsemantic hdelta⟩

end ReceivedMessage

/-! ## Where the fragments of a message come from -/

/-- The metadata that a frame repeats for its message. -/
def frameMeta (frame : SparseRadioFrame) : FragmentMeta := (Context.ofFrame frame).toFragmentMeta

/-- A message is made of frames with its own metadata. -/
structure MadeOf (message : ReceivedMessage) (frames : List SparseRadioFrame) : Prop where
  source : ∀ frame ∈ frames, frameMeta frame = message.toFragmentMeta
  bytes : (frames.map SparseRadioFrame.payload).flatten = message.bytes

/-- Each part is the payload of one of the frames with the given metadata. -/
def PartsFrom (frames : List SparseRadioFrame) (info : FragmentMeta)
    (parts : List (Option (List UInt8))) : Prop :=
  ∀ payload, some payload ∈ parts →
    ∃ frame ∈ frames, frameMeta frame = info ∧ frame.payload = payload

/-- Every fragment in the reassembly table is the payload of one of the frames. -/
def Gathered (frames : List SparseRadioFrame) (table : Reassembler) : Prop :=
  ∀ context ∈ table.contexts, PartsFrom frames context.toFragmentMeta context.parts

/-- Complete parts join to the payloads of some of the frames. -/
theorem PartsFrom.join {frames : List SparseRadioFrame} {info : FragmentMeta}
    {parts : List (Option (List UInt8))} (h : PartsFrom frames info parts) {bytes : List UInt8}
    (hjoin : Context.joinParts parts = .ok bytes) :
    ∃ chosen : List SparseRadioFrame, (∀ frame ∈ chosen, frame ∈ frames ∧ frameMeta frame = info) ∧
      (chosen.map SparseRadioFrame.payload).flatten = bytes := by
  induction parts generalizing bytes with
  | nil =>
      obtain rfl := Except.ok.inj hjoin
      exact ⟨[], fun _ hmem => absurd hmem List.not_mem_nil, rfl⟩
  | cons part parts ih =>
      cases part with
      | none => cases hjoin
      | some payload =>
          obtain ⟨rest, hrest, heq⟩ := Lib.bind_eq_ok_iff.mp hjoin
          obtain rfl := Except.ok.inj heq
          obtain ⟨frame, hframe, hinfo, rfl⟩ := h payload (List.mem_cons_self ..)
          obtain ⟨chosen, hchosen, hbytes⟩ :=
            ih (fun other hmem => h other (List.mem_cons_of_mem _ hmem)) hrest
          refine ⟨frame :: chosen, List.forall_mem_cons.mpr ⟨⟨hframe, hinfo⟩, hchosen⟩, ?_⟩
          rw [List.map_cons, List.flatten_cons, hbytes]

namespace Gathered

variable {frames : List SparseRadioFrame} {table next : Reassembler} {frame : SparseRadioFrame}
  {base : Context}

/-- A frame that a base context accepts has the metadata of the context. -/
theorem base_meta (hbase : table.Base frame base) (hstores : Reassembler.Stores base frame) :
    base.toFragmentMeta = frameMeta frame := by
  rcases hbase with ⟨_, hfor⟩ | rfl
  · have hagrees := hstores.agrees
    simp only [Context.conflicts, not_or, not_not] at hagrees
    obtain ⟨hprofile, hflags, hclass, hpriority, htag, _⟩ := hagrees
    simp only [Context.isFor, Bool.and_eq_true, beq_iff_eq] at hfor
    obtain
      ⟨⟨profile, flags, streamId, sequence, semanticClass, priority, stateTag⟩, total, parts⟩ :=
      base
    dsimp only at hprofile hflags hclass hpriority htag hfor
    rw [hprofile, hflags, hclass, hpriority, htag, hfor.1, hfor.2]
    rfl
  · rfl

/-- The parts of a context come from gathered frames. -/
theorem parts_base (h : Gathered frames table) (hbase : table.Base frame base) :
    PartsFrom frames base.toFragmentMeta base.parts := by
  rcases hbase with ⟨hmem, _⟩ | rfl
  · exact h base hmem
  · intro payload hmem
    exact absurd (List.eq_of_mem_replicate hmem) (Option.some_ne_none payload)

/-- A stored frame keeps that the parts come from gathered frames. -/
theorem parts_store (h : Gathered frames table) (hframe : frame ∈ frames)
    (hbase : table.Base frame base) (hstores : Reassembler.Stores base frame) :
    PartsFrom frames (base.store frame).toFragmentMeta (base.store frame).parts := by
  intro payload hmem
  rcases List.mem_or_eq_of_mem_set hmem with hold | hnew
  · exact h.parts_base hbase payload hold
  · exact ⟨frame, hframe, (base_meta hbase hstores).symm, (Option.some.inj hnew).symm⟩

/-- A frame that is handed in keeps the table gathered. -/
theorem ingest (h : Gathered frames table)
    (hframe : frame ∈ frames)
    (hcontexts : ∀ context ∈ next.contexts, context ∈ table.contexts ∨
      ∃ base, table.Base frame base ∧
        (context = base ∨ (Reassembler.Stores base frame ∧ context = base.store frame))) :
    Gathered frames next := by
  intro context hmem
  rcases hcontexts context hmem with hold | ⟨base, hbase, rfl | ⟨hstores, rfl⟩⟩
  · exact h context hold
  · exact h.parts_base hbase
  · exact h.parts_store hframe hbase hstores

/-- A message that a frame completes is made of frames that were handed in. -/
theorem message (h : Gathered frames table) (hframe : frame ∈ frames)
    (hbase : table.Base frame base) (hstores : Reassembler.Stores base frame)
    {message : ReceivedMessage} (hmessage : (base.store frame).message = .ok message) :
    ∃ chosen : List SparseRadioFrame,
      (∀ frame ∈ chosen, frame ∈ frames) ∧ MadeOf message chosen := by
  obtain ⟨bytes, hjoin, heq⟩ := Lib.bind_eq_ok_iff.mp hmessage
  obtain rfl := Except.ok.inj heq
  obtain ⟨chosen, hchosen, hbytes⟩ := (h.parts_store hframe hbase hstores).join hjoin
  exact ⟨chosen, fun other hmem => (hchosen other hmem).1,
    fun other hmem => (hchosen other hmem).2, hbytes⟩

end Gathered

/-! ## Entry points -/

/-- What an entry point is called with. A burst comes with what the demodulator makes of it. -/
inductive IngestInput where
  | frame (frame : SparseRadioFrame)
  | frameBytes (bytes : List UInt8)
  | iqBurst (demodulate : BpskConfig → Result (List Int8))
  | pcmBurst (demodulate : CpfskConfig → Result (List Int8))
  | softStream (llrs : List Int8)

/-- A call of an entry point. The verified ones come with a verifier. -/
structure IngestCall where
  input : IngestInput
  verifier : Option EnvelopeVerifier

/-- A frame that is handed to `ingest_frame_inner`. -/
structure Attempt where
  before : AirReceiver
  frame : SparseRadioFrame
  verifier : Option EnvelopeVerifier

/-- What `ingest_frame_inner` does with the frame. -/
def Attempt.outcome (self : Attempt) : AirReceiver × Result (Option ReceivedMessage) :=
  self.before.ingestFrameInner self.frame self.verifier

/-- The outcome of an attempt. -/
theorem Attempt.outcome_eq (self : Attempt) :
    self.before.ingestFrameInner self.frame self.verifier = (self.outcome.1, self.outcome.2) :=
  rfl

namespace AirReceiver

/-- The receiver after a call and the messages that the call returns. -/
def ingest (self : AirReceiver) (call : IngestCall) :
    AirReceiver × Result (List ReceivedMessage) :=
  match call.input with
  | .frame frame =>
      let (receiver, result) := self.ingestFrameInner frame call.verifier
      (receiver, result.map Option.toList)
  | .frameBytes bytes =>
      let (receiver, result) := self.ingestFrameBytes bytes call.verifier
      (receiver, result.map Option.toList)
  | .iqBurst demodulate =>
      let (receiver, result) := self.ingestBurst (self.decodeIqBurst demodulate) call.verifier
      (receiver, result.map Option.toList)
  | .pcmBurst demodulate =>
      let (receiver, result) := self.ingestBurst (self.decodePcmBurst demodulate) call.verifier
      (receiver, result.map Option.toList)
  | .softStream llrs => self.ingestSoftStream llrs call.verifier

/-- The attempts of `ingestFrameBytes`. -/
def bytesAttempts (self : AirReceiver) (verifier : Option EnvelopeVerifier) (bytes : List UInt8) :
    List Attempt :=
  match SparseRadioFrame.decode bytes with
  | .error _ => []
  | .ok frame => [⟨self, frame, verifier⟩]

/-- The attempts of `ingestBurst`. -/
def burstAttempts (self : AirReceiver) (verifier : Option EnvelopeVerifier)
    (decoded : Result (List UInt8)) : List Attempt :=
  match decoded with
  | .error _ => []
  | .ok bytes => self.bytesAttempts verifier bytes

/-- The attempts of `ingestBurstFrames`. -/
def streamAttempts (self : AirReceiver) (verifier : Option EnvelopeVerifier) :
    List (List UInt8) → List Attempt
  | [] => []
  | bytes :: rest =>
      match SparseRadioFrame.decode bytes with
      | .error _ => []
      | .ok frame =>
          ⟨self, frame, verifier⟩ ::
            match self.ingestFrameInner frame verifier with
            | (_, .error _) => []
            | (next, .ok _) => next.streamAttempts verifier rest

/-- The frames that a call hands to `ingest_frame_inner`. -/
def attempts (self : AirReceiver) (call : IngestCall) : List Attempt :=
  match call.input with
  | .frame frame => [⟨self, frame, call.verifier⟩]
  | .frameBytes bytes => self.bytesAttempts call.verifier bytes
  | .iqBurst demodulate => self.burstAttempts call.verifier (self.decodeIqBurst demodulate)
  | .pcmBurst demodulate => self.burstAttempts call.verifier (self.decodePcmBurst demodulate)
  | .softStream llrs =>
      match self.softBurst.pushSlice llrs with
      | (_, .error _) => []
      | (softBurst, .ok frames) => { self with softBurst }.streamAttempts call.verifier frames

end AirReceiver

/-! ## Attempts -/

/-- The reassembly table and the windows of two receivers are the same. -/
structure SameTables (receiver next : AirReceiver) : Prop where
  reassembler : next.reassembler = receiver.reassembler
  replay : next.replay = receiver.replay

/-- Between two receivers the tables change only in the attempts, one after the other. -/
inductive Linked : AirReceiver → List Attempt → AirReceiver → Prop where
  | done {self next : AirReceiver} (hsame : SameTables self next) : Linked self [] next
  | attempt {self next : AirReceiver} {attempt : Attempt} {rest : List Attempt}
      (hsame : SameTables self attempt.before) (hrest : Linked attempt.outcome.1 rest next) :
      Linked self (attempt :: rest) next

/-- One attempt from a receiver with the same tables. -/
theorem Linked.single {self : AirReceiver} {attempt : Attempt}
    (h : SameTables self attempt.before) : Linked self [attempt] attempt.outcome.1 :=
  .attempt h (.done ⟨rfl, rfl⟩)

namespace AirReceiver

/-- The attempts of a call on bytes are linked. -/
theorem bytes_attempts_linked (self : AirReceiver) (verifier : Option EnvelopeVerifier)
    (bytes : List UInt8) : Linked self (self.bytesAttempts verifier bytes)
      (self.ingestFrameBytes bytes verifier).1 := by
  unfold bytesAttempts ingestFrameBytes
  cases SparseRadioFrame.decode bytes with
  | error error => exact .done ⟨rfl, rfl⟩
  | ok frame => exact @Linked.single self ⟨self, frame, verifier⟩ ⟨rfl, rfl⟩

/-- The attempts of a call on a burst are linked. -/
theorem burst_attempts_linked (self : AirReceiver) (verifier : Option EnvelopeVerifier)
    (decoded : Result (List UInt8)) : Linked self (self.burstAttempts verifier decoded)
      (self.ingestBurst decoded verifier).1 := by
  cases decoded with
  | error error => exact .done ⟨rfl, rfl⟩
  | ok bytes => exact self.bytes_attempts_linked verifier bytes

/-- The attempts of a call on a stream are linked. -/
theorem stream_attempts_linked (self : AirReceiver) (verifier : Option EnvelopeVerifier)
    (frames : List (List UInt8)) : Linked self (self.streamAttempts verifier frames)
      (self.ingestBurstFrames verifier frames).1 := by
  induction frames generalizing self with
  | nil => exact .done ⟨rfl, rfl⟩
  | cons bytes rest ih =>
      rw [streamAttempts, ingestBurstFrames]
      cases SparseRadioFrame.decode bytes with
      | error error => exact .done ⟨rfl, rfl⟩
      | ok frame =>
          refine .attempt ⟨rfl, rfl⟩ ?_
          dsimp only [Attempt.outcome]
          cases self.ingestFrameInner frame verifier with
          | mk next result =>
              cases result with
              | error error => exact .done ⟨rfl, rfl⟩
              | ok message =>
                  have hrest := ih next
                  dsimp only
                  cases hnext : next.ingestBurstFrames verifier rest with
                  | mk final results =>
                      rw [hnext] at hrest
                      cases results with
                      | error error => exact hrest
                      | ok messages => exact hrest

/-- A call changes the tables only in its attempts. -/
theorem attempts_linked (self : AirReceiver) (call : IngestCall) :
    Linked self (self.attempts call) (self.ingest call).1 := by
  obtain ⟨input, verifier⟩ := call
  cases input with
  | frame frame => exact .single ⟨rfl, rfl⟩
  | frameBytes bytes => exact self.bytes_attempts_linked verifier bytes
  | iqBurst demodulate => exact self.burst_attempts_linked verifier _
  | pcmBurst demodulate => exact self.burst_attempts_linked verifier _
  | softStream llrs =>
      dsimp only [attempts, ingest, ingestSoftStream]
      cases self.softBurst.pushSlice llrs with
      | mk softBurst result =>
          cases result with
          | error error => exact .done ⟨rfl, rfl⟩
          | ok frames =>
              have hstream := stream_attempts_linked { self with softBurst } verifier frames
              dsimp only
              cases hframes : streamAttempts { self with softBurst } verifier frames with
              | nil =>
                  rw [hframes] at hstream
                  cases hstream with
                  | done hsame => exact .done ⟨hsame.reassembler, hsame.replay⟩
              | cons first others =>
                  rw [hframes] at hstream
                  cases hstream with
                  | attempt hsame hrest => exact .attempt ⟨hsame.reassembler, hsame.replay⟩ hrest

/-! ## Returned messages -/

/-- What a call on bytes returns was returned by one of its attempts. -/
theorem bytes_returned {self : AirReceiver} {verifier : Option EnvelopeVerifier}
    {bytes : List UInt8} {message : ReceivedMessage}
    (h : (self.ingestFrameBytes bytes verifier).2 = .ok (some message)) :
    ∃ attempt ∈ self.bytesAttempts verifier bytes, attempt.verifier = verifier ∧
      attempt.outcome.2 = .ok (some message) := by
  unfold ingestFrameBytes at h
  unfold bytesAttempts
  cases hdecode : SparseRadioFrame.decode bytes with
  | error error =>
      rw [hdecode] at h
      cases h
  | ok frame =>
      rw [hdecode] at h
      exact ⟨⟨self, frame, verifier⟩, List.mem_singleton_self _, rfl, h⟩

/-- What a call on a burst returns was returned by one of its attempts. -/
theorem burst_returned {self : AirReceiver} {verifier : Option EnvelopeVerifier}
    {decoded : Result (List UInt8)} {message : ReceivedMessage}
    (h : (self.ingestBurst decoded verifier).2 = .ok (some message)) :
    ∃ attempt ∈ self.burstAttempts verifier decoded, attempt.verifier = verifier ∧
      attempt.outcome.2 = .ok (some message) := by
  cases decoded with
  | error error => cases h
  | ok bytes => exact bytes_returned h

/-- What a call on a stream returns was returned by one of its attempts. -/
theorem stream_returned {self : AirReceiver} {verifier : Option EnvelopeVerifier}
    {frames : List (List UInt8)} {messages : List ReceivedMessage}
    (h : (self.ingestBurstFrames verifier frames).2 = .ok messages) :
    ∀ message ∈ messages, ∃ attempt ∈ self.streamAttempts verifier frames,
      attempt.verifier = verifier ∧ attempt.outcome.2 = .ok (some message) := by
  induction frames generalizing self messages with
  | nil =>
      cases h
      exact fun message hmem => absurd hmem List.not_mem_nil
  | cons bytes rest ih =>
      rw [ingestBurstFrames] at h
      rw [streamAttempts]
      cases hdecode : SparseRadioFrame.decode bytes with
      | error error =>
          rw [hdecode] at h
          cases h
      | ok frame =>
          rw [hdecode] at h
          dsimp only at h ⊢
          cases hinner : self.ingestFrameInner frame verifier with
          | mk next result =>
              rw [hinner] at h
              cases result with
              | error error => cases h
              | ok first =>
                  dsimp only at h ⊢
                  cases hnext : next.ingestBurstFrames verifier rest with
                  | mk final results =>
                      rw [hnext] at h
                      cases results with
                      | error error => cases h
                      | ok others =>
                          obtain rfl := Except.ok.inj h
                          intro message hmem
                          rcases List.mem_append.mp hmem with hfirst | hother
                          · refine ⟨_, List.mem_cons_self .., rfl, ?_⟩
                            rw [Option.mem_toList.mp hfirst] at hinner
                            exact congrArg Prod.snd hinner
                          · have hrest : (next.ingestBurstFrames verifier rest).2 = .ok others :=
                              congrArg Prod.snd hnext
                            obtain ⟨attempt, hattempt, hdone⟩ := ih hrest message hother
                            exact ⟨attempt, List.mem_cons_of_mem _ hattempt, hdone⟩

/-- A result with at most one message returns it. -/
theorem returned_of_map {result : Result (Option ReceivedMessage)} {messages : List ReceivedMessage}
    (h : result.map Option.toList = .ok messages) {message : ReceivedMessage}
    (hmem : message ∈ messages) : result = .ok (some message) := by
  cases result with
  | error error => cases h
  | ok found =>
      obtain rfl := Except.ok.inj h
      rw [Option.mem_toList.mp hmem]

/-- A message that a call returns is the outcome of one of its attempts. -/
theorem attempt_of_returned {self : AirReceiver} {call : IngestCall}
    {messages : List ReceivedMessage} (h : (self.ingest call).2 = .ok messages)
    {message : ReceivedMessage} (hmem : message ∈ messages) :
    ∃ attempt ∈ self.attempts call, attempt.verifier = call.verifier ∧
      attempt.outcome.2 = .ok (some message) := by
  obtain ⟨input, verifier⟩ := call
  cases input with
  | frame frame => exact ⟨_, List.mem_singleton_self _, rfl, returned_of_map h hmem⟩
  | frameBytes bytes => exact bytes_returned (returned_of_map h hmem)
  | iqBurst demodulate => exact burst_returned (returned_of_map h hmem)
  | pcmBurst demodulate => exact burst_returned (returned_of_map h hmem)
  | softStream llrs =>
      dsimp only [attempts, ingest, ingestSoftStream] at h ⊢
      cases hslice : self.softBurst.pushSlice llrs with
      | mk softBurst result =>
          rw [hslice] at h
          cases result with
          | error error => cases h
          | ok frames => exact stream_returned h message hmem

end AirReceiver

/-! ## Refused messages -/

/-- The frame is refused for what it carries: it is signed and there is no verifier, or the message
that it completes is not admitted. -/
def Attempt.Rejected (self : Attempt) : Prop :=
  (self.frame.flags.contains FrameFlags.signedEnvelope = true ∧ self.verifier = none) ∨
    ∃ message, (self.before.reassembler.push self.frame).2 = .ok (some message) ∧
      ReceivedMessage.validateAdmission message self.verifier ≠ .ok ()

/-- A refused frame is answered with an error and changes no window. -/
theorem Attempt.rejected_keeps_windows {attempt : Attempt} (h : attempt.Rejected) :
    (∃ error, attempt.outcome.2 = .error error) ∧
      attempt.outcome.1.replay = attempt.before.replay := by
  obtain ⟨before, frame, verifier⟩ := attempt
  dsimp only [Attempt.outcome, AirReceiver.ingestFrameInner]
  split
  · exact ⟨⟨_, rfl⟩, rfl⟩
  · split
    · exact ⟨⟨_, rfl⟩, rfl⟩
    · split
      · exact ⟨⟨_, rfl⟩, rfl⟩
      · rename_i hadmitted
        split
        · exact ⟨⟨_, rfl⟩, rfl⟩
        · obtain ⟨hsigned, hnone⟩ | ⟨message, hpush, hrefused⟩ := h
          · exact absurd ⟨hsigned, by rw [show verifier = none from hnone]; rfl⟩ hadmitted
          · dsimp only at hpush hrefused
            rw [hpush]
            dsimp only
            cases hadmission : ReceivedMessage.validateAdmission message verifier with
            | error error => exact ⟨⟨_, rfl⟩, rfl⟩
            | ok u => exact absurd hadmission hrefused

/-! ## Runs -/

/-- A receiver in use, and the frames that were handed to `ingest_frame_inner` so far. -/
structure IngestRun where
  receiver : AirReceiver
  frames : List SparseRadioFrame

namespace IngestRun

/-- One call more. -/
def call (self : IngestRun) (call : IngestCall) : IngestRun where
  receiver := (self.receiver.ingest call).1
  frames := self.frames ++ (self.receiver.attempts call).map Attempt.frame

/-- A run of calls on a receiver. -/
def calls (receiver : AirReceiver) (calls : List IngestCall) : IngestRun :=
  calls.foldl IngestRun.call ⟨receiver, []⟩

end IngestRun

/-- More frames gather as well. -/
theorem Gathered.mono {frames others : List SparseRadioFrame} {table : Reassembler}
    (h : Gathered frames table) (hsubset : ∀ frame ∈ frames, frame ∈ others) :
    Gathered others table := by
  intro context hcontext payload hpayload
  obtain ⟨frame, hframe, hmade⟩ := h context hcontext payload hpayload
  exact ⟨frame, hsubset frame hframe, hmade⟩

/-- The attempts keep the table gathered. -/
theorem Linked.gathered {receiver next : AirReceiver} {attempts : List Attempt}
    {frames : List SparseRadioFrame} (h : Linked receiver attempts next)
    (hgathered : Gathered frames receiver.reassembler)
    (hframes : ∀ attempt ∈ attempts, attempt.frame ∈ frames) :
    Gathered frames next.reassembler ∧
      ∀ attempt ∈ attempts, Gathered frames attempt.before.reassembler := by
  induction h with
  | done hsame =>
      refine ⟨?_, fun attempt hmem => absurd hmem List.not_mem_nil⟩
      rw [hsame.reassembler]
      exact hgathered
  | @attempt receiver next attempt rest hsame _ ih =>
      have hbefore : Gathered frames attempt.before.reassembler := by
        rw [hsame.reassembler]
        exact hgathered
      have hcases := AirReceiver.ingest_cases attempt.outcome_eq
      have hafter := hbefore.ingest (hframes attempt (List.mem_cons_self ..)) hcases.2.1
      obtain ⟨hfinal, hall⟩ := ih hafter fun other hmem =>
        hframes other (List.mem_cons_of_mem _ hmem)
      exact ⟨hfinal, List.forall_mem_cons.mpr ⟨hbefore, hall⟩⟩

namespace IngestRun

/-- Every fragment that a call finds in the table was handed in before or in this call. -/
theorem gathered_call {run : IngestRun} (h : Gathered run.frames run.receiver.reassembler)
    (call : IngestCall) :
    Gathered (run.call call).frames (run.call call).receiver.reassembler ∧
      ∀ attempt ∈ run.receiver.attempts call,
        Gathered (run.call call).frames attempt.before.reassembler :=
  (run.receiver.attempts_linked call).gathered
    (h.mono fun _ hmem => List.mem_append_left _ hmem)
    fun _ hmem => List.mem_append_right _ (List.mem_map_of_mem hmem)

/-- What a receiver holds after some calls was gathered in them. -/
theorem gathered_calls {config : ReceiverConfig} {receiver : AirReceiver}
    (hnew : AirReceiver.new config = .ok receiver) (calls : List IngestCall) :
    Gathered (IngestRun.calls receiver calls).frames
      (IngestRun.calls receiver calls).receiver.reassembler := by
  refine List.foldlRecOn (motive := fun run => Gathered run.frames run.receiver.reassembler) calls
    IngestRun.call ?_ fun run h call _ => (gathered_call h call).1
  simp only [AirReceiver.new, Reassembler.new, Lib.bind_eq_ok_iff, Lib.guard_eq_ok_iff,
    Except.ok.injEq] at hnew
  obtain ⟨u, -, -, codec, -, reassembler, ⟨-, rfl⟩, rfl⟩ := hnew
  exact fun context hmem => absurd hmem List.not_mem_nil

end IngestRun

/-- The authentication gate. In every run, a message that a call returns is made of frames that were
handed in with its metadata; if they are signed, the call has a verifier and it accepted the
authentication bytes and the signature of the envelope; and a delta message agrees with its
envelope, its body and its state tag. The tables change only in the attempts of a call, and a frame
that is refused because of a missing verifier or because its message is not admitted leaves every
window as it is. -/
theorem authentication_gate {config : ReceiverConfig} {receiver : AirReceiver}
    (hnew : AirReceiver.new config = .ok receiver) (calls : List IngestCall) (call : IngestCall) :
    (∀ messages, ((IngestRun.calls receiver calls).receiver.ingest call).2 = .ok messages →
      ∀ message ∈ messages,
        (∃ frames : List SparseRadioFrame,
          (∀ frame ∈ frames, frame ∈ ((IngestRun.calls receiver calls).call call).frames) ∧
          MadeOf message frames) ∧
        (message.flags.contains FrameFlags.signedEnvelope = true → ∃ verifier,
          call.verifier = some verifier ∧ ReceivedMessage.VerifiedBy message verifier) ∧
        (message.semanticClass = .stateDelta →
          ∃ envelope delta, ReceivedMessage.Agree message envelope delta)) ∧
    Linked (IngestRun.calls receiver calls).receiver
      ((IngestRun.calls receiver calls).receiver.attempts call)
      ((IngestRun.calls receiver calls).call call).receiver ∧
    ∀ attempt ∈ (IngestRun.calls receiver calls).receiver.attempts call, attempt.Rejected →
      (∃ error, attempt.outcome.2 = .error error) ∧
      ∀ streamId, AirReceiver.windowOf attempt.outcome.1.replay streamId =
        AirReceiver.windowOf attempt.before.replay streamId := by
  refine ⟨fun messages hmessages message hmem => ?_, AirReceiver.attempts_linked _ call,
    fun attempt _ hrejected => ?_⟩
  · obtain ⟨attempt, hattempt, hverifier, houtcome⟩ :=
      AirReceiver.attempt_of_returned hmessages hmem
    obtain ⟨_, hall⟩ := IngestRun.gathered_call (IngestRun.gathered_calls hnew calls) call
    have hgathered := hall attempt hattempt
    have hframe : attempt.frame ∈ ((IngestRun.calls receiver calls).call call).frames :=
      List.mem_append_right _ (List.mem_map_of_mem hattempt)
    obtain ⟨_, _, ⟨hnothing, _⟩ | ⟨found, base, hfound, hbase, hstores, _, hmade, hadmission, _⟩⟩ :=
      AirReceiver.ingest_cases attempt.outcome_eq
    · rw [houtcome] at hnothing
      cases hnothing
    · rw [houtcome] at hfound
      cases hfound
      rw [hverifier] at hadmission
      obtain ⟨hsigned, hdelta⟩ := ReceivedMessage.validate_admission_ok hadmission
      exact ⟨hgathered.message hframe hbase hstores hmade, hsigned, hdelta⟩
  · obtain ⟨herror, hreplay⟩ := attempt.rejected_keeps_windows hrejected
    exact ⟨herror, fun streamId => by rw [hreplay]⟩

/-- A verifier that accepts what has the length of a header. -/
def headerVerifier : EnvelopeVerifier :=
  fun authenticationBytes _ => authenticationBytes.length == 48

/-- A signed message with an empty body, in one frame. -/
def signedFrame : SparseRadioFrame where
  profile := .wifi
  flags := FrameFlags.signedEnvelope
  streamId := 1
  sequence := 0
  fragmentIndex := 0
  fragmentCount := 1
  semanticClass := .telemetry
  priority := 0
  stateTag := 0
  payload := envelopeMagic ++ [1, 1, 0, 0] ++ List.replicate 38 0 ++ [64, 0] ++ List.replicate 64 9

/-- The verified entry point returns the message, so the verifier accepted its signature. -/
theorem authentication_gate_signed :
    ∃ receiver, AirReceiver.new (.forLink (.forProfile .wifi)) = .ok receiver ∧
      (receiver.ingest ⟨.frame signedFrame, some headerVerifier⟩).2 =
        .ok [singleMessage signedFrame] ∧
      ReceivedMessage.VerifiedBy (singleMessage signedFrame) headerVerifier := by
  obtain ⟨receiver, hreceiver⟩ :
      ∃ receiver, AirReceiver.new (.forLink (.forProfile .wifi)) = .ok receiver := ⟨_, rfl⟩
  have hreturned : (receiver.ingest ⟨.frame signedFrame, some headerVerifier⟩).2 =
      .ok [singleMessage signedFrame] := by
    cases hreceiver
    rfl
  obtain ⟨hmessages, -⟩ :=
    authentication_gate hreceiver [] ⟨.frame signedFrame, some headerVerifier⟩
  obtain ⟨-, hsigned, -⟩ := hmessages _ hreturned _ (List.mem_singleton_self _)
  obtain ⟨verifier, hverifier, hverified⟩ := hsigned rfl
  obtain rfl := Option.some.inj hverifier
  exact ⟨receiver, hreceiver, hreturned, hverified⟩

end LatentMesh.AirRadio
