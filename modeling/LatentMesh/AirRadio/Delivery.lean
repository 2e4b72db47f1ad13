import LatentMesh.AirRadio.Ingest
import LatentMesh.AirRadio.Transmitter
import LatentMesh.Lib.Transition

/-!
# End-to-end delivery

A transmitter, a network and a receiver. The network keeps every frame that was sent, so it may
lose, delay, reorder and duplicate them, and it changes none. `Exchange.Invariant` ties every frame
in flight and every reassembly context to one enqueued message; see `Exchange.end_to_end_safety`.
-/

namespace LatentMesh.AirRadio

open LatentMesh.AirCore LatentMesh.Lib

/-! ## Enqueuing -/

namespace AirTransmitter

/-- The transmitter has taken a message: its frames are queued under the next sequence number. -/
structure Enqueued (self next : AirTransmitter) (message : ReceivedMessage) : Prop where
  frames : ∃ frames, fragmentMessage message.toFragmentMeta message.bytes
    self.config.link.frameMtu = .ok frames ∧ next.queue = self.queue ++ frames
  sequence : message.sequence = self.nextSequence
  config : next.config = self.config
  nextSequence : next.nextSequence = self.nextSequence + 1

variable {self next : AirTransmitter} {streamId sequence stateTag : UInt16}
  {semanticClass : SemanticClass} {priority : UInt8} {message : List UInt8} {flags : FrameFlags}

/-- A message that is accepted is queued under the next sequence number. -/
theorem enqueue_message_with_flags_ok
    (h : self.enqueueMessageWithFlags streamId semanticClass priority stateTag message flags =
      .ok (sequence, next)) :
    Enqueued self next
      { profile := self.config.link.profile, flags, streamId, sequence, semanticClass, priority
        stateTag, bytes := message } := by
  rw [enqueueMessageWithFlags, Lib.bind_eq_ok_iff] at h
  obtain ⟨frames, hframes, hqueue⟩ := h
  obtain ⟨-, hnext⟩ := Lib.guard_eq_ok_iff.mp hqueue
  cases hnext
  exact ⟨⟨frames, hframes, rfl⟩, rfl, rfl, rfl⟩

/-- A delta that is accepted is queued as its envelope. -/
theorem enqueue_delta_ok {delta : SemanticDelta} {signature : Option Signature}
    {envelope : SemanticEnvelope}
    (hwrap : SemanticEnvelope.wrapDelta delta priority self.nextLogicalSequence signature =
      .ok envelope) (hencode : envelope.encode = .ok message)
    (h : self.enqueueDeltaWithSignature streamId delta priority signature =
      .ok (sequence, next)) :
    Enqueued self next
      { profile := self.config.link.profile, flags := self.deltaFlags envelope.signature, streamId
        sequence, semanticClass := .stateDelta, priority
        stateTag := stateHashTag delta.resultHash, bytes := message } := by
  simp only [enqueueDeltaWithSignature, hwrap, hencode, Except.bind] at h
  split at h
  · cases h
  · rename_i taken htaken
    cases h
    obtain ⟨hframes, hsequence, hconfig, hnext⟩ := enqueue_message_with_flags_ok htaken
    exact ⟨hframes, hsequence, hconfig, hnext⟩

/-- A transmission of bytes carries the frame and its bytes. -/
theorem transmission_bytes {modems : Modems} {link : LinkConfig} {frame sent : SparseRadioFrame}
    {frameBytes bytes : List UInt8}
    (h : transmission modems link frame frameBytes = .ok (.bytes sent bytes)) :
    sent = frame ∧ bytes = frameBytes := by
  unfold transmission at h
  split at h
  · cases h
    exact ⟨rfl, rfl⟩
  · simp only [Lib.bind_eq_ok_iff] at h
    obtain ⟨codec, -, bits, -, samples, -, hiq⟩ := h
    cases hiq
  · simp only [Lib.bind_eq_ok_iff] at h
    obtain ⟨codec, -, bits, -, samples, -, hpcm⟩ := h
    cases hpcm

end AirTransmitter

/-! ## The system -/

/-- The messages, frames and deliveries so far are recorded in order. -/
structure Exchange where
  transmitter : AirTransmitter
  receiver : AirReceiver
  enqueued : List ReceivedMessage
  emitted : List (SparseRadioFrame × List UInt8)
  returned : List ReceivedMessage

namespace Exchange

/-- What a transmission puts on a byte transport. -/
def sentBytes : Result (Option Transmission) → List (SparseRadioFrame × List UInt8)
  | .ok (some (.bytes frame bytes)) => [(frame, bytes)]
  | _ => []

/-- What is sent of a frame is its bytes. -/
theorem mem_sent_bytes {result : Result (Option Transmission)}
    {entry : SparseRadioFrame × List UInt8} (h : entry ∈ sentBytes result) :
    result = .ok (some (.bytes entry.1 entry.2)) := by
  unfold sentBytes at h
  split at h
  · rw [List.mem_singleton.mp h]
  · cases h

/-- One call on either side. A refused enqueue changes nothing and is no step; a verified and an
unverified ingest differ in the verifier. -/
inductive Step (modems : Modems) : Exchange → Exchange → Prop where
  | enqueueMessage {state : Exchange} {streamId stateTag sequence : UInt16}
      {semanticClass : SemanticClass} {priority : UInt8} {message : List UInt8}
      {transmitter : AirTransmitter} :
      state.transmitter.enqueueMessage streamId semanticClass priority stateTag message =
        .ok (sequence, transmitter) →
      Step modems state { state with
        transmitter
        enqueued := state.enqueued ++
          [{ profile := state.transmitter.config.link.profile
             flags := state.transmitter.config.link.flags
             streamId, sequence, semanticClass, priority, stateTag, bytes := message }] }
  | enqueueDelta {state : Exchange} {streamId sequence : UInt16} {delta : SemanticDelta}
      {priority : UInt8} {signature : Option Signature} {envelope : SemanticEnvelope}
      {message : List UInt8} {transmitter : AirTransmitter} :
      SemanticEnvelope.wrapDelta delta priority state.transmitter.nextLogicalSequence signature =
        .ok envelope →
      envelope.encode = .ok message →
      state.transmitter.enqueueDeltaWithSignature streamId delta priority signature =
        .ok (sequence, transmitter) →
      Step modems state { state with
        transmitter
        enqueued := state.enqueued ++
          [{ profile := state.transmitter.config.link.profile
             flags := state.transmitter.deltaFlags envelope.signature
             streamId, sequence, semanticClass := .stateDelta, priority
             stateTag := stateHashTag delta.resultHash, bytes := message }] }
  | transmit {state : Exchange} {transmitter : AirTransmitter}
      {result : Result (Option Transmission)} :
      state.transmitter.nextTransmission modems = (transmitter, result) →
      Step modems state { state with
        transmitter, emitted := state.emitted ++ sentBytes result }
  | ingestBytes {state : Exchange} {frame : SparseRadioFrame} {bytes : List UInt8}
      {verifier : Option EnvelopeVerifier} {receiver : AirReceiver}
      {result : Result (Option ReceivedMessage)} :
      (frame, bytes) ∈ state.emitted →
      state.receiver.ingestFrameBytes bytes verifier = (receiver, result) →
      Step modems state { state with
        receiver, returned := state.returned ++ AirReceiver.delivered result }
  | ingestFrame {state : Exchange} {frame : SparseRadioFrame} {bytes : List UInt8}
      {verifier : Option EnvelopeVerifier} {receiver : AirReceiver}
      {result : Result (Option ReceivedMessage)} :
      (frame, bytes) ∈ state.emitted →
      state.receiver.ingestFrameInner frame verifier = (receiver, result) →
      Step modems state { state with
        receiver, returned := state.returned ++ AirReceiver.delivered result }

/-! ## The invariant -/

/-- The place of a sequence number in the run of numbers from the initial one. -/
def position (initial sequence : UInt16) : Int :=
  initial.toNat + (sequence - initial).toNat

/-- A sequence number is its position modulo 65536. -/
theorem position_mod (initial sequence : UInt16) :
    (sequence.toNat : Int) = position initial sequence % 65536 :=
  ReplayWindow.base_add_difference_mod initial sequence

/-- The frame is one of those that a message is cut into. -/
def FrameOf (frameMtu : Nat) (message : ReceivedMessage) (frame : SparseRadioFrame) : Prop :=
  ∃ frames, fragmentMessage message.toFragmentMeta message.bytes frameMtu = .ok frames ∧
    frame ∈ frames

/-- The context holds fragments of one message only. -/
def ContextOf (frameMtu : Nat) (message : ReceivedMessage) (context : Context) : Prop :=
  Carries message.toFragmentMeta (fragmentPayloads message.bytes frameMtu) context

/-- The positions of the messages that were returned on a stream. -/
def ReturnedAt (returned : List ReceivedMessage) (initial streamId : UInt16) (place : Int) : Prop :=
  ∃ message ∈ returned, message.streamId = streamId ∧ position initial message.sequence = place

/-- The places at which a message was returned, after one more. -/
theorem returned_at_append {returned : List ReceivedMessage} {message : ReceivedMessage}
    {initial streamId : UInt16} {place : Int} :
    ReturnedAt (returned ++ [message]) initial streamId place ↔
      (message.streamId = streamId ∧ place = position initial message.sequence) ∨
        ReturnedAt returned initial streamId place := by
  simp only [ReturnedAt, List.mem_append, List.mem_singleton]
  constructor
  · rintro ⟨other, hold | rfl, hplace⟩
    · exact Or.inr ⟨other, hold, hplace⟩
    · exact Or.inl ⟨hplace.1, hplace.2.symm⟩
  · rintro (hplace | ⟨other, hold, hplace⟩)
    · exact ⟨message, Or.inr rfl, hplace.1, hplace.2.symm⟩
    · exact ⟨other, Or.inl hold, hplace⟩

/-- What holds in every state of a run with fewer than 32768 messages. -/
structure Invariant (config : TransmitterConfig) (state : Exchange) : Prop where
  unchanged : state.transmitter.config = config
  next : state.transmitter.nextSequence =
    config.initialSequence + UInt16.ofNat state.enqueued.length
  sequence : ∀ (index : Nat) message, state.enqueued[index]? = some message →
    message.sequence = config.initialSequence + UInt16.ofNat index
  queued : ∀ frame ∈ state.transmitter.queue, ∃ message ∈ state.enqueued,
    FrameOf config.link.frameMtu message frame
  emitted : ∀ entry ∈ state.emitted, entry.1.encode = .ok entry.2 ∧ ∃ message ∈ state.enqueued,
    FrameOf config.link.frameMtu message entry.1
  contexts : ∀ context ∈ state.receiver.reassembler.contexts, ∃ message ∈ state.enqueued,
    ContextOf config.link.frameMtu message context
  returned : ∀ message ∈ state.returned, message ∈ state.enqueued
  untracked : ∀ streamId, AirReceiver.windowOf state.receiver.replay streamId = none →
    ∀ place, ¬ ReturnedAt state.returned config.initialSequence streamId place
  tracked : ∀ streamId window,
    AirReceiver.windowOf state.receiver.replay streamId = some window →
    ∃ top, window.Tracks (ReturnedAt state.returned config.initialSequence streamId) top
  once : state.returned.Pairwise fun left right =>
    (left.streamId, left.sequence) ≠ (right.streamId, right.sequence)

namespace Invariant

variable {config : TransmitterConfig} {state : Exchange}

/-- A new link has neither sent nor returned anything. -/
theorem start {transmitter : AirTransmitter} {receiver : AirReceiver}
    {receiverConfig : ReceiverConfig} (htransmitter : AirTransmitter.new config = .ok transmitter)
    (hreceiver : AirReceiver.new receiverConfig = .ok receiver) :
    Invariant config ⟨transmitter, receiver, [], [], []⟩ := by
  rw [AirTransmitter.new, Lib.bind_eq_ok_iff] at htransmitter
  obtain ⟨u, -, hqueue⟩ := htransmitter
  obtain ⟨-, heq⟩ := Lib.guard_eq_ok_iff.mp hqueue
  cases heq
  simp only [AirReceiver.new, Reassembler.new, Lib.bind_eq_ok_iff, Lib.guard_eq_ok_iff,
    Except.ok.injEq] at hreceiver
  obtain ⟨u, -, -, codec, -, reassembler, ⟨-, rfl⟩, rfl⟩ := hreceiver
  exact
    { unchanged := rfl
      next := (UInt16.add_zero _).symm
      sequence := fun _ _ hget => by simp at hget
      queued := fun _ hmem => by simp at hmem
      emitted := fun _ hmem => by simp at hmem
      contexts := fun _ hmem => by simp at hmem
      returned := fun _ hmem => by simp at hmem
      untracked := fun _ _ _ ⟨_, hmem, _⟩ => by simp at hmem
      tracked := fun _ _ hwindow => by simp [AirReceiver.windowOf] at hwindow
      once := List.Pairwise.nil }

/-- Distinct messages have distinct sequence numbers. -/
theorem eq_of_sequence_eq (h : Invariant config state) (hcount : state.enqueued.length < 32768)
    {left right : ReceivedMessage} (hleft : left ∈ state.enqueued)
    (hright : right ∈ state.enqueued) (heq : left.sequence = right.sequence) : left = right := by
  obtain ⟨i, hi⟩ := List.mem_iff_getElem?.mp hleft
  obtain ⟨j, hj⟩ := List.mem_iff_getElem?.mp hright
  have hilt := (List.getElem?_eq_some_iff.mp hi).1
  have hjlt := (List.getElem?_eq_some_iff.mp hj).1
  rw [h.sequence i left hi, h.sequence j right hj, UInt16.add_right_inj,
    ← UInt16.toNat_inj,
    UInt16.toNat_ofNat_of_lt' (Nat.lt_trans hilt (Nat.lt_trans hcount (by decide))),
    UInt16.toNat_ofNat_of_lt' (Nat.lt_trans hjlt (Nat.lt_trans hcount (by decide)))] at heq
  subst heq
  exact Option.some.inj (hi.symm.trans hj)

/-- The positions of fewer than 32768 messages span less than half of the range. -/
theorem position_lt (h : Invariant config state) (hcount : state.enqueued.length < 32768)
    {message : ReceivedMessage} (hmessage : message ∈ state.enqueued) :
    config.initialSequence.toNat ≤ position config.initialSequence message.sequence ∧
      position config.initialSequence message.sequence <
        config.initialSequence.toNat + 32768 := by
  obtain ⟨i, hi⟩ := List.mem_iff_getElem?.mp hmessage
  have hilt := (List.getElem?_eq_some_iff.mp hi).1
  have hplace : (message.sequence - config.initialSequence).toNat = i := by
    rw [h.sequence i message hi, UInt16.add_comm, UInt16.add_sub_cancel]
    exact UInt16.toNat_ofNat_of_lt' (Nat.lt_trans hilt (Nat.lt_trans hcount (by decide)))
  rw [position, hplace]
  omega

/-- An enqueued message keeps the invariant. -/
theorem enqueue (h : Invariant config state) {transmitter : AirTransmitter}
    {message : ReceivedMessage} (henqueued : state.transmitter.Enqueued transmitter message) :
    Invariant config { state with transmitter, enqueued := state.enqueued ++ [message] } := by
  obtain ⟨⟨frames, hframes, hqueue⟩, hsequence, hconfig, hnext⟩ := henqueued
  rw [h.unchanged] at hframes
  have hold : ∀ other ∈ state.enqueued, other ∈ state.enqueued ++ [message] :=
    fun other hmem => List.mem_append_left _ hmem
  exact
    { unchanged := hconfig.trans h.unchanged
      next := by
        rw [hnext, h.next, List.length_append, List.length_singleton, UInt16.ofNat_add,
          UInt16.add_assoc]
        rfl
      sequence := fun index other hget => by
        rcases Nat.lt_or_ge index state.enqueued.length with hlt | hge
        · exact h.sequence index other (by rwa [List.getElem?_append_left hlt] at hget)
        · rw [List.getElem?_append_right hge, List.getElem?_singleton] at hget
          split at hget
          · rename_i hindex
            cases hget
            rw [hsequence, h.next, Nat.le_antisymm (Nat.le_of_sub_eq_zero hindex) hge]
          · cases hget
      queued := fun frame hmem => by
        rw [hqueue] at hmem
        rcases List.mem_append.mp hmem with hmem | hmem
        · obtain ⟨other, hother, hframe⟩ := h.queued frame hmem
          exact ⟨other, hold other hother, hframe⟩
        · exact ⟨message, List.mem_append_right _ (List.mem_singleton_self _), frames, hframes,
            hmem⟩
      emitted := fun entry hmem => by
        obtain ⟨hencode, other, hother, hframe⟩ := h.emitted entry hmem
        exact ⟨hencode, other, hold other hother, hframe⟩
      contexts := fun context hmem => by
        obtain ⟨other, hother, hcontext⟩ := h.contexts context hmem
        exact ⟨other, hold other hother, hcontext⟩
      returned := fun other hmem => hold other (h.returned other hmem)
      untracked := h.untracked
      tracked := h.tracked
      once := h.once }

/-- A transmission keeps the invariant: only queued frames are emitted. -/
theorem transmit (h : Invariant config state) {modems : Modems} {transmitter : AirTransmitter}
    {result : Result (Option Transmission)}
    (htransmit : state.transmitter.nextTransmission modems = (transmitter, result)) :
    Invariant config { state with transmitter, emitted := state.emitted ++ sentBytes result } := by
  unfold AirTransmitter.nextTransmission at htransmit
  split at htransmit
  · cases htransmit
    simpa [sentBytes] using h
  · rename_i frame queue hqueue
    cases htransmit
    have hqueued : ∀ other ∈ state.transmitter.queue, ∃ message ∈ state.enqueued,
        FrameOf config.link.frameMtu message other := h.queued
    rw [hqueue] at hqueued
    exact
      { h with
        queued := fun other hmem => hqueued other (List.mem_cons_of_mem _ hmem)
        emitted := fun entry hmem => by
          rcases List.mem_append.mp hmem with hmem | hmem
          · exact h.emitted entry hmem
          · obtain ⟨frameBytes, hencode, hsent⟩ := Lib.bind_eq_ok_iff.mp (mem_sent_bytes hmem)
            obtain ⟨sent, hsent, heq⟩ := Lib.bind_eq_ok_iff.mp hsent
            cases heq
            obtain ⟨hframe, hbytes⟩ := AirTransmitter.transmission_bytes hsent
            rw [hframe, hbytes]
            exact ⟨hencode, hqueued frame (List.mem_cons_self ..)⟩ }

/-- The context that a frame of a message works on holds fragments of that message. -/
theorem base_context (h : Invariant config state) (hcount : state.enqueued.length < 32768)
    {message : ReceivedMessage} {frame : SparseRadioFrame} {base : Context}
    (hmessage : message ∈ state.enqueued) (hframe : FrameOf config.link.frameMtu message frame)
    (hbase : state.receiver.reassembler.Base frame base) :
    ContextOf config.link.frameMtu message base ∧
      ContextOf config.link.frameMtu message (base.store frame) := by
  obtain ⟨frames, hframes, hmem⟩ := hframe
  obtain ⟨hfragments, hcount32, -⟩ := fragment_message_eq_ok hframes
  rw [hfragments] at hmem
  have hcontext : ContextOf config.link.frameMtu message base := by
    rcases hbase with ⟨hold, hfor⟩ | rfl
    · obtain ⟨other, hother, hcarries⟩ := h.contexts base hold
      obtain ⟨index, payload, -, rfl⟩ := mem_fragment_frames.mp hmem
      have hsequence : base.sequence = message.sequence := by
        simpa [Context.isFor, FragmentMeta.frame] using (Bool.and_eq_true_iff.mp hfor).2
      have heq : other = message := h.eq_of_sequence_eq hcount hother hmessage
        ((congrArg FragmentMeta.sequence hcarries.source).symm.trans hsequence)
      rwa [heq] at hcarries
    · exact Carries.of_frame hmem hcount32
  exact ⟨hcontext, Carries.store hcontext hmem hcount32⟩

/-- A committed message is new on its stream, and its window takes it in. -/
theorem committed (h : Invariant config state) (hcount : state.enqueued.length < 32768)
    {message : ReceivedMessage} {replay : List StreamReplay} (hmessage : message ∈ state.enqueued)
    (hcommitted : AirReceiver.Committed state.receiver.replay replay message.streamId
      message.sequence) :
    ¬ ReturnedAt state.returned config.initialSequence message.streamId
        (position config.initialSequence message.sequence) ∧
      ∃ window top, AirReceiver.windowOf replay message.streamId = some window ∧
        window.Tracks (fun place => place = position config.initialSequence message.sequence ∨
          ReturnedAt state.returned config.initialSequence message.streamId place) top := by
  obtain ⟨window, hwindow, hcommit⟩ := hcommitted.commit
  cases hbefore : AirReceiver.windowOf state.receiver.replay message.streamId with
  | none =>
      have hempty := h.untracked message.streamId hbefore
      rw [hbefore] at hcommit
      have htracks := ReplayWindow.commit_first rfl
        (position_mod config.initialSequence message.sequence) hcommit
      exact ⟨hempty _, window, _, hwindow,
        htracks.congr fun place => (or_iff_left (hempty place)).symm⟩
  | some old =>
      obtain ⟨top, htracks⟩ := h.tracked message.streamId old hbefore
      rw [hbefore] at hcommit
      obtain ⟨first, hfirst, -, htop⟩ := htracks.top_mem
      have hfirstRange := h.position_lt hcount (h.returned first hfirst)
      have hrange := h.position_lt hcount hmessage
      have hunwrap : ReplayWindow.unwrap top message.sequence =
          position config.initialSequence message.sequence :=
        ReplayWindow.unwrap_eq (position_mod _ _) (by omega) (by omega)
      have hnext := htracks.commit hcommit
      rw [hunwrap] at hnext
      exact ⟨hnext.1, window, _, hwindow, hnext.2⟩

/-- A frame of an enqueued message keeps the invariant. -/
theorem ingest (h : Invariant config state) (hcount : state.enqueued.length < 32768)
    {message : ReceivedMessage} {frame : SparseRadioFrame} (hmessage : message ∈ state.enqueued)
    (hframe : FrameOf config.link.frameMtu message frame) {verifier : Option EnvelopeVerifier}
    {receiver : AirReceiver} {result : Result (Option ReceivedMessage)}
    (hingest : state.receiver.ingestFrameInner frame verifier = (receiver, result)) :
    Invariant config { state with
      receiver, returned := state.returned ++ AirReceiver.delivered result } := by
  obtain ⟨-, hcontexts, houtcome⟩ := AirReceiver.ingest_cases hingest
  have hheld : ∀ context ∈ receiver.reassembler.contexts, ∃ message ∈ state.enqueued,
      ContextOf config.link.frameMtu message context := by
    intro context hmem
    rcases hcontexts context hmem with hold | ⟨base, hbase, rfl | ⟨-, rfl⟩⟩
    · exact h.contexts context hold
    · exact ⟨message, hmessage, (h.base_context hcount hmessage hframe hbase).1⟩
    · exact ⟨message, hmessage, (h.base_context hcount hmessage hframe hbase).2⟩
  rcases houtcome with ⟨hnothing, hwindows⟩ | ⟨received, base, rfl, hbase, -, hfull, hreceived, -,
    hcommitted⟩
  · rw [hnothing, List.append_nil]
    exact
      { h with
        contexts := hheld
        untracked := fun streamId hnone =>
          h.untracked streamId ((hwindows streamId).symm.trans hnone)
        tracked := fun streamId window hwindow =>
          h.tracked streamId window ((hwindows streamId).symm.trans hwindow) }
  · have hcontext := (h.base_context hcount hmessage hframe hbase).2
    obtain ⟨frames, hframes, -⟩ := hframe
    obtain ⟨-, -, hbytes⟩ := fragment_message_eq_ok hframes
    have heq : received = message := by
      rw [Carries.message hcontext hfull, hbytes] at hreceived
      exact (Except.ok.inj hreceived).symm
    subst heq
    obtain ⟨hnew, window, top, hwindow, htracks⟩ := h.committed hcount hmessage hcommitted
    change Invariant config { state with receiver, returned := state.returned ++ [received] }
    exact
      { h with
        contexts := hheld
        returned := fun other hmem => by
          rcases List.mem_append.mp hmem with hold | hlast
          · exact h.returned other hold
          · rw [List.mem_singleton.mp hlast]
            exact hmessage
        untracked := fun streamId hnone place => by
          have hne : streamId ≠ received.streamId := fun heq => by
            rw [heq, hwindow] at hnone
            cases hnone
          rw [hcommitted.other streamId hne] at hnone
          exact fun hplace => (returned_at_append.mp hplace).elim
            (fun hself => hne hself.1.symm) (h.untracked streamId hnone place)
        tracked := fun streamId other hother => by
          by_cases hstream : streamId = received.streamId
          · subst hstream
            cases hwindow.symm.trans hother
            exact ⟨top, htracks.congr fun place => by
              rw [returned_at_append]
              simp only [true_and]⟩
          · rw [hcommitted.other streamId hstream] at hother
            obtain ⟨top, htracks⟩ := h.tracked streamId other hother
            exact ⟨top, htracks.congr fun place => by
              rw [returned_at_append]
              exact (or_iff_right fun hself => hstream hself.1.symm).symm⟩
        once := by
          rw [List.pairwise_append]
          refine ⟨h.once, List.pairwise_singleton _ _, fun old hold new hnewMem heq => ?_⟩
          rw [List.mem_singleton.mp hnewMem] at heq
          obtain ⟨hstream, hsequence⟩ := Prod.mk.inj heq
          exact hnew ⟨old, hold, hstream, by rw [hsequence]⟩ }

/-- Every step keeps the invariant while there are fewer than 32768 messages. -/
theorem step (h : Invariant config state) {modems : Modems} {next : Exchange}
    (hstep : Step modems state next) (hcount : next.enqueued.length < 32768) :
    Invariant config next := by
  cases hstep with
  | enqueueMessage henqueue =>
      exact h.enqueue (AirTransmitter.enqueue_message_with_flags_ok henqueue)
  | enqueueDelta hwrap hencode henqueue =>
      exact h.enqueue (AirTransmitter.enqueue_delta_ok hwrap hencode henqueue)
  | transmit htransmit => exact h.transmit htransmit
  | ingestBytes hemitted hingest =>
      obtain ⟨hencode, message, hmessage, hframe⟩ := h.emitted _ hemitted
      rw [AirReceiver.ingestFrameBytes, SparseRadioFrame.decode_eq_ok_iff.mpr hencode] at hingest
      exact h.ingest hcount hmessage hframe hingest
  | ingestFrame hemitted hingest =>
      obtain ⟨-, message, hmessage, hframe⟩ := h.emitted _ hemitted
      exact h.ingest hcount hmessage hframe hingest

end Invariant

/-- No step forgets a message. -/
theorem Step.enqueued_length_le {modems : Modems} {state next : Exchange}
    (h : Step modems state next) : state.enqueued.length ≤ next.enqueued.length := by
  cases h with
  | enqueueMessage _ => simp
  | enqueueDelta _ _ _ => simp
  | _ => exact Nat.le_refl _

/-- Every message that the receiver returns is one that was enqueued, no two returned messages share
a stream and a sequence number, and no reassembly context mixes the fragments of two messages. -/
theorem end_to_end_safety {modems : Modems} {config : TransmitterConfig}
    {receiverConfig : ReceiverConfig} {transmitter : AirTransmitter} {receiver : AirReceiver}
    {state : Exchange} (htransmitter : AirTransmitter.new config = .ok transmitter)
    (hreceiver : AirReceiver.new receiverConfig = .ok receiver)
    (hrun : Reachable (Step modems) ⟨transmitter, receiver, [], [], []⟩ state)
    (hcount : state.enqueued.length < 32768) :
    (∀ message ∈ state.returned, message ∈ state.enqueued) ∧
      (state.returned.Pairwise fun left right =>
        (left.streamId, left.sequence) ≠ (right.streamId, right.sequence)) ∧
      ∀ context ∈ state.receiver.reassembler.contexts, ∃ message ∈ state.enqueued,
        ContextOf config.link.frameMtu message context := by
  have h : Invariant config state :=
    hrun.invariant (fun current => current.enqueued.length < 32768 → Invariant config current)
      (fun _ => Invariant.start htransmitter hreceiver)
      (fun _ _ ih hstep hnext =>
        (ih (Nat.lt_of_le_of_lt hstep.enqueued_length_le hnext)).step hstep hnext) hcount
  exact ⟨h.returned, h.once, h.contexts⟩

/-- A transmitter on a byte transport. -/
def sampleTransmitter : AirTransmitter :=
  ⟨.forLink (.forProfile .wifi), 0, 0, []⟩

/-- A byte transport never calls the modems. -/
def sampleModems : Modems := ⟨fun _ _ => .error .invalidLength, fun _ _ => .error .invalidLength⟩

/-- The metadata of a sample message. -/
def sampleMeta : FragmentMeta := ⟨.wifi, FrameFlags.none, 7, 0, .telemetry, 3, 0⟩

/-- A message of one byte in one frame. -/
def sampleFrame : SparseRadioFrame := sampleMeta.frame 0 1 [42]

/-- The message of the sample frame. -/
def sampleMessage : ReceivedMessage := ⟨sampleMeta, [42]⟩

/-- A one-byte message, delivered from its frame. -/
theorem end_to_end_safety_one_byte :
    ∃ receiver state, AirTransmitter.new (.forLink (.forProfile .wifi)) = .ok sampleTransmitter ∧
      AirReceiver.new (.forLink (.forProfile .wifi)) = .ok receiver ∧
      Reachable (Step sampleModems) ⟨sampleTransmitter, receiver, [], [], []⟩ state ∧
      state.returned = [sampleMessage] ∧
      ∀ message ∈ state.returned, message ∈ state.enqueued := by
  have htransmitter :
      AirTransmitter.new (.forLink (.forProfile .wifi)) = .ok sampleTransmitter := rfl
  obtain ⟨receiver, hreceiver⟩ :
      ∃ receiver, AirReceiver.new (.forLink (.forProfile .wifi)) = .ok receiver := ⟨_, rfl⟩
  have hframe : sampleFrame.encode = .ok sampleFrame.wire :=
    SparseRadioFrame.encode_eq_ok_iff.mpr ⟨by constructor <;> decide, rfl⟩
  have hframes : fragmentMessage
      (sampleTransmitter.nextMeta 7 .telemetry 3 0 sampleTransmitter.config.link.flags) [42]
      sampleTransmitter.config.link.frameMtu = .ok [sampleFrame] := by decide
  have henqueue : sampleTransmitter.enqueueMessage 7 .telemetry 3 0 [42] =
      .ok (0, ⟨.forLink (.forProfile .wifi), 1, 0, [sampleFrame]⟩) := by
    rw [AirTransmitter.enqueueMessage, AirTransmitter.enqueueMessageWithFlags, hframes]
    rfl
  have htransmit : AirTransmitter.nextTransmission sampleModems
      ⟨.forLink (.forProfile .wifi), 1, 0, [sampleFrame]⟩ =
      (⟨.forLink (.forProfile .wifi), 1, 0, []⟩,
        .ok (some (.bytes sampleFrame sampleFrame.wire))) := by
    simp only [AirTransmitter.nextTransmission, hframe]
    rfl
  have hstart : Reachable (Step sampleModems) ⟨sampleTransmitter, receiver, [], [], []⟩ _ := .start
  have hsent := (hstart.step (.enqueueMessage henqueue)).step (.transmit htransmit)
  have hingest : receiver.ingestFrameInner sampleFrame none = (_, _) := (Prod.eta _).symm
  have hdone := hsent.step (.ingestFrame (List.mem_singleton_self _) hingest)
  refine ⟨receiver, _, htransmitter, hreceiver, hdone, ?_,
    (end_to_end_safety htransmitter hreceiver hdone (show 1 < 32768 by decide)).1⟩
  cases hreceiver
  rfl

end Exchange

end LatentMesh.AirRadio
