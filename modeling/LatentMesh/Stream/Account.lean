import LatentMesh.Stream.Receiver
import LatentMesh.Stream.Transport

/-!
# What becomes of a stamped stream

Frames that a `LatentStreamSender` has stamped stay in order, whatever is lost of them. So no
receiver refuses one as a duplicate or a regression, and the gaps that it reports are the frames
between the first and the last admitted that it has not admitted (`stamped_stream_account`).
-/

namespace LatentMesh.Stream

open LatentMesh.Core LatentMesh.Gate LatentMesh.Lib

/-- The frames that the events of a session report missing. -/
def gapsReported (admitted : List AdmittedFrame) : Nat :=
  (admitted.map fun frame => frame.sequenceEvent.missing).sum

/-- A frame more, with the gap before it. -/
theorem gaps_reported_concat (admitted : List AdmittedFrame) (frame : AdmittedFrame) :
    gapsReported (admitted ++ [frame]) =
      gapsReported admitted + frame.sequenceEvent.missing := by
  simp [gapsReported]

/-- A receiver that has ingested the frames, with increasing sequences: it has admitted those that
the gate accepts, and knows the last of them. -/
structure Accounted (ops : FloatOps) (policy : Policy) (frames : List LatentFrame)
    (session : Session) : Prop where
  policy_eq : session.receiver.policy = policy
  admitted : session.admitted.map (fun admitted => admitted.frame) =
    frames.filter fun frame => (Gate.admitFrame ops frame policy).isOk
  expected : session.receiver.tracker.nextExpected =
    session.admitted.getLast?.map fun last => last.frame.sequence + 1
  account : ∀ first last, session.admitted.head? = some first →
    session.admitted.getLast? = some last →
    first.frame.sequence.toNat + gapsReported session.admitted + session.admitted.length =
      last.frame.sequence.toNat + 1

variable {ops : FloatOps} {policy : Policy} {escalation : EscalationConfig}
  {frames : List LatentFrame} {session : Session}

/-- The tracker accepts a frame behind the last one that was admitted, and reports what lies
between. -/
theorem Accounted.observe (h : Accounted ops policy frames session) {frame : LatentFrame}
    (hlater : ∀ earlier ∈ frames, earlier.sequence < frame.sequence)
    (hmax : frame.sequence ≠ maxSequence) :
    ∃ event, session.receiver.tracker.observe frame.sequence =
        (⟨some (frame.sequence + 1)⟩, .ok event) ∧
      (session.admitted = [] → event.missing = 0) ∧
      ∀ last, session.admitted.getLast? = some last →
        last.frame.sequence.toNat + 1 + event.missing = frame.sequence.toNat := by
  have hexpected := h.expected
  cases hlast : session.admitted.getLast? with
  | none =>
      rw [hlast] at hexpected
      refine ⟨.inOrder, ?_, fun _ => rfl, fun _ hsome => nomatch hsome⟩
      rw [SequenceTracker.observe, if_neg hmax, hexpected]
      rfl
  | some last =>
      rw [hlast] at hexpected
      have hmem : last.frame ∈ frames := by
        have hadmitted := List.mem_map_of_mem (f := fun admitted => admitted.frame)
          (List.mem_of_getLast? hlast)
        rw [h.admitted] at hadmitted
        exact (List.mem_filter.mp hadmitted).1
      obtain ⟨event, hobserve, hmissing⟩ :=
        SequenceTracker.observe_later hexpected (hlater _ hmem) hmax
      refine ⟨event, hobserve, fun hnil => ?_, fun other hother => ?_⟩
      · rw [hnil] at hlast
        cases hlast
      · cases hother
        exact hmissing

/-- A session with a frame that the gate and the tracker accept. -/
theorem Session.step_accepted {frame : LatentFrame} {tracker : SequenceTracker}
    {event : SequenceEvent}
    (hgate : Gate.admitFrame ops frame session.receiver.policy = .ok ())
    (hobserve : session.receiver.tracker.observe frame.sequence = (tracker, .ok event)) :
    session.step ops frame =
      ⟨⟨session.receiver.policy, tracker, ((session.receiver.escalatorFor event).observe ops
          frame.authority frame.confidence).1⟩,
        session.admitted ++ [⟨frame, ((session.receiver.escalatorFor event).observe ops
          frame.authority frame.confidence).2, event⟩]⟩ := by
  simp only [Session.step, LatentStreamReceiver.ingest, hgate, hobserve]

/-- A later frame keeps the account. -/
theorem Accounted.step (h : Accounted ops policy frames session) {frame : LatentFrame}
    (hlater : ∀ earlier ∈ frames, earlier.sequence < frame.sequence)
    (hmax : frame.sequence ≠ maxSequence) :
    Accounted ops policy (frames ++ [frame]) (session.step ops frame) := by
  cases hgate : Gate.admitFrame ops frame policy with
  | error error =>
      have hstep : session.step ops frame = session := by
        simp [Session.step, LatentStreamReceiver.ingest, h.policy_eq, hgate]
      rw [hstep]
      refine ⟨h.policy_eq, ?_, h.expected, h.account⟩
      rw [h.admitted, List.filter_append, List.filter_singleton, hgate]
      exact (List.append_nil _).symm
  | ok _ =>
      obtain ⟨event, hobserve, hfirst, hmissing⟩ := h.observe hlater hmax
      have hstep := Session.step_accepted (h.policy_eq ▸ hgate) hobserve
      rw [hstep]
      refine ⟨h.policy_eq, ?_, ?_, fun first last hhead hlast => ?_⟩
      · rw [List.map_append, h.admitted, List.filter_append, List.filter_singleton, hgate]
        rfl
      · rw [List.getLast?_concat]
        rfl
      · rw [List.getLast?_concat] at hlast
        cases hlast
        rw [gaps_reported_concat, List.length_append, List.length_singleton]
        cases hold : session.admitted with
        | nil =>
            rw [hold] at hhead
            cases hhead
            rw [hfirst hold]
            rfl
        | cons head rest =>
            obtain ⟨before, hbefore⟩ : ∃ before, session.admitted.getLast? = some before :=
              ⟨_, List.getLast?_eq_some_getLast (by simp [hold])⟩
            have haccount := h.account head before (by rw [hold]; rfl) hbefore
            have hgap := hmissing before hbefore
            rw [hold] at hhead haccount
            cases hhead
            show first.frame.sequence.toNat + (gapsReported (first :: rest) + event.missing) + _ =
              frame.sequence.toNat + 1
            omega

/-- In every run the gaps account for the numbers that are missing. -/
theorem run_accounted (ops : FloatOps) (policy : Policy) (escalation : EscalationConfig)
    (hincreasing : frames.Pairwise fun first second => first.sequence < second.sequence)
    (hmax : ∀ frame ∈ frames, frame.sequence ≠ maxSequence) :
    Accounted ops policy frames (Session.run ops policy escalation frames) := by
  induction frames using List.reverseRecOn with
  | nil => exact ⟨rfl, rfl, rfl, fun _ _ hhead => nomatch hhead⟩
  | append_singleton frames frame ih =>
      obtain ⟨hbefore, -, hlater⟩ := List.pairwise_append.mp hincreasing
      rw [Session.run, List.foldl_append]
      exact (ih hbefore fun earlier hmem => hmax earlier (List.mem_append_left _ hmem)).step
        (fun earlier hmem => hlater earlier hmem frame (List.mem_singleton_self _))
        (hmax frame (List.mem_append_right _ (List.mem_singleton_self _)))

/-! ## Over a transport -/

/-- The frame of a call, if it has returned one. -/
def receivedFrame : Result (Option LatentFrame) → Option LatentFrame
  | .ok frame => frame
  | .error _ => none

variable {serde : SerdeJson}

/-- The peer reads the frame that was sent or none. -/
theorem read_frame_eq_ok {frame found : LatentFrame} (h : readFrame serde frame = .ok found) :
    found = frame := by
  obtain ⟨body, -, hfound⟩ := Lib.bind_eq_ok_iff.mp h
  split at hfound
  · cases hfound
    rfl
  · cases hfound

/-- What is popped comes from the queue, in order. -/
theorem pop_frames_sublist {atEnd : Result (Option LatentFrame)} (hend : receivedFrame atEnd = none)
    (frames : List LatentFrame) (count : Nat) :
    ((popFrames serde atEnd frames count).filterMap receivedFrame).Sublist frames := by
  induction count generalizing frames with
  | zero => exact List.nil_sublist _
  | succ count ih =>
      cases frames with
      | nil =>
          rw [popFrames, popFrame, List.filterMap_cons_none hend]
          exact ih []
      | cons frame frames =>
          rw [popFrames, popFrame]
          cases hread : readFrame serde frame with
          | error error => exact ih (frame :: frames)
          | ok found =>
              cases read_frame_eq_ok hread
              exact (ih frames).cons_cons frame

/-- The frames that have arrived, in the order in which they were sent. -/
theorem arrived_sublist (serde : SerdeJson) (frames : List LatentFrame) (received : List UInt8) :
    (arrived serde frames received).1.Sublist frames := by
  induction frames generalizing received with
  | nil => exact .slnil
  | cons frame frames ih =>
      unfold arrived
      split
      · exact (ih received).cons frame
      · split
        · exact (ih _).cons_cons frame
        · exact List.nil_sublist _

/-- The frames that come out of a QUIC stream are some of those that were sent, in order. -/
theorem recv_frames_sublist
    (hcodec : ∀ frame ∈ frames, serde.RoundTrips (documentOf frame)) (stream : LatentByteStream)
    (hread : stream.slices.flatten <+: wire serde frames) (count : Nat) :
    (((QuicFrameTransport.new stream).recvFrames serde count).filterMap receivedFrame).Sublist
      frames := by
  rw [@recv_frames_carries serde (.new stream) _ _ (quic_carries hcodec stream hread) count]
  refine (pop_frames_sublist ?_ _ count).trans (arrived_sublist serde frames _)
  unfold QuicFrameTransport.atEnd
  split
  · rfl
  · unfold FrameDecoder.endOfStream
    split <;> rfl

/-- However the stream is cut and wherever it breaks off, the session admits exactly the received
frames that its gate accepts, and its gaps and admitted frames add up to the span of the sequences
from the first to the last that it has admitted. -/
theorem stamped_stream_account {serde : SerdeJson} (ops : FloatOps) (policy : Policy)
    (escalation : EscalationConfig) (sender : LatentStreamSender) {frames : List LatentFrame}
    (hcount : sender.nextSequence.toNat + frames.length < 2 ^ 64)
    (hcodec : ∀ frame ∈ sender.stampAll frames, serde.RoundTrips (documentOf frame))
    (stream : LatentByteStream)
    (hread : stream.slices.flatten <+: wire serde (sender.stampAll frames)) (calls : Nat) :
    Accounted ops policy
      (((QuicFrameTransport.new stream).recvFrames serde calls).filterMap receivedFrame)
      (Session.run ops policy escalation
        (((QuicFrameTransport.new stream).recvFrames serde calls).filterMap receivedFrame)) := by
  obtain ⟨hincreasing, hbounds⟩ := LatentStreamSender.stamp_all_increasing hcount
  have hsublist := recv_frames_sublist hcodec stream hread calls
  exact run_accounted ops policy escalation (hincreasing.sublist hsublist) fun frame hframe =>
    (hbounds frame (hsublist.subset hframe)).2

/-- A frame whose payload has too few bytes for its dimension, which is not sent. -/
def shortFrame : LatentFrame :=
  { sampleFrame half with sequence := 2, payload := ⟨.f32, 2, [0, 0, 128, 62], none⟩ }

/-- The sample frame with the sequence 3. -/
def thirdFrame : LatentFrame := { sampleFrame half with sequence := 3 }

/-- Its JSON: that of the sample frame, with another digit. -/
def thirdText : List UInt8 := (sampleText halfText).set 83 0x33

/-- Two frames as texts. -/
def gapRender (document : FrameDocument) : Except String (List UInt8) :=
  if document = documentOf (sampleFrame half) then .ok (sampleText halfText)
  else if document = documentOf thirdFrame then .ok thirdText
  else .error "not a sample"

/-- The texts read back. -/
def gapParse (bytes : List UInt8) : Except String FrameDocument :=
  if bytes = sampleText halfText then .ok (documentOf (sampleFrame half))
  else if bytes = thirdText then .ok (documentOf thirdFrame)
  else .error "expected value at line 1 column 1"

/-- What `serde_json` does with these frames. -/
def gapSerde : SerdeJson where
  render := gapRender
  parse := gapParse
  nullText := sampleSerde.nullText

/-- The bytes of the first and the third frame in two reads. -/
def gapStream : LatentByteStream where
  slices := [(prefixed (sampleText halfText) ++ prefixed thirdText).take 300,
    (prefixed (sampleText halfText) ++ prefixed thirdText).drop 300]
  failure := none
  sized := by
    have hlength : (prefixed (sampleText halfText) ++ prefixed thirdText).length = 580 := by
      rw [List.length_append, prefixed_length, prefixed_length, thirdText, List.length_set,
        sample_text_length]
      rfl
    intro slice hslice
    have hbounds : 0 < slice.length ∧ slice.length ≤ readBufBytes := by
      rcases List.mem_pair.mp hslice with rfl | rfl
      · rw [List.length_take, hlength]
        decide
      · rw [List.length_drop, hlength]
        decide
    exact ⟨List.ne_nil_of_length_pos hbounds.1, hbounds.2⟩

/-- The texts of the two frames. -/
theorem gap_render :
    gapRender (documentOf (sampleFrame half)) = .ok (sampleText halfText) ∧
      gapRender (documentOf thirdFrame) = .ok thirdText := by
  have hdiffer : documentOf thirdFrame ≠ documentOf (sampleFrame half) := by decide
  constructor
  · rw [gapRender, if_pos rfl]
  · rw [gapRender, if_neg hdiffer, if_pos rfl]

/-- The second frame is not encoded. -/
theorem gap_encoded :
    encodeFrame gapSerde (sampleFrame half) = .ok (prefixed (sampleText halfText)) ∧
      (∃ error, encodeFrame gapSerde shortFrame = .error error) ∧
      encodeFrame gapSerde thirdFrame = .ok (prefixed thirdText) := by
  have hlength : (sampleText halfText).length ≤ maxFrameBytes := by
    rw [sample_text_length]
    decide
  refine ⟨encode_frame_eq_ok_iff.mpr ⟨rfl, _, gap_render.1, hlength, rfl⟩, ⟨_, rfl⟩,
    encode_frame_eq_ok_iff.mpr ⟨rfl, _, gap_render.2, ?_, rfl⟩⟩
  rwa [thirdText, List.length_set]

/-- Every frame that has a text is read back. -/
theorem gap_round_trips (frame : LatentFrame) : gapSerde.RoundTrips (documentOf frame) := by
  have hdiffer : thirdText ≠ sampleText halfText := by decide +kernel
  intro bytes hrender
  replace hrender : gapRender (documentOf frame) = .ok bytes := hrender
  show gapParse bytes = _
  unfold gapRender at hrender
  split at hrender
  · rename_i hfirst
    cases hrender
    rw [gapParse, if_pos rfl, hfirst]
  · split at hrender
    · rename_i hthird
      cases hrender
      rw [gapParse, if_neg hdiffer, if_pos rfl, hthird]
    · cases hrender

/-- The reads of the stream give what is written of three frames, of which the second is not
encoded. -/
theorem gap_stream_read :
    gapStream.slices.flatten = wire gapSerde [sampleFrame half, shortFrame, thirdFrame] := by
  obtain ⟨hfirst, ⟨error, hshort⟩, hthird⟩ := gap_encoded
  rw [wire_cons_ok _ hfirst, wire_cons_error _ hshort, wire_cons_ok _ hthird]
  simp [gapStream, wire]

/-- The first and the third frame are received. -/
theorem gap_received :
    ((QuicFrameTransport.new gapStream).recvFrames gapSerde 3).filterMap receivedFrame =
      [sampleFrame half, thirdFrame] := by
  obtain ⟨hfirst, ⟨error, hshort⟩, hthird⟩ := gap_encoded
  have harrived : arrived gapSerde [sampleFrame half, shortFrame, thirdFrame]
      gapStream.slices.flatten = ([sampleFrame half, thirdFrame], []) := by
    have hwire : gapStream.slices.flatten =
        prefixed (sampleText halfText) ++ prefixed thirdText := by
      simp [gapStream]
    rw [hwire]
    simp [arrived, hfirst, hshort, hthird]
  have hread : gapStream.slices.flatten <+:
      wire gapSerde [sampleFrame half, shortFrame, thirdFrame] :=
    gap_stream_read ▸ List.prefix_refl _
  have hcarries := quic_carries (fun frame _ => gap_round_trips frame) gapStream hread
  have hreadFirst : readFrame gapSerde (sampleFrame half) = .ok (sampleFrame half) := by
    rw [readFrame, show gapSerde.toVec (sampleFrame half) = .ok _ from gap_render.1]
    rfl
  have hreadThird : readFrame gapSerde thirdFrame = .ok thirdFrame := by
    rw [readFrame, show gapSerde.toVec thirdFrame = .ok _ from gap_render.2]
    rfl
  rw [@recv_frames_carries gapSerde (.new gapStream) _ _ hcarries 3, harrived]
  simp [popFrames, popFrame, hreadFirst, hreadThird, receivedFrame, QuicFrameTransport.new,
    QuicFrameTransport.atEnd, FrameDecoder.endOfStream, FrameDecoder.buffered, gapStream]

/-- Of three frames two arrive, and a receiver that admits both reports one missing. -/
theorem stamped_stream_account_gap :
    LatentStreamSender.stampAll ⟨1⟩ [sampleFrame half, shortFrame, sampleFrame half] =
        [sampleFrame half, shortFrame, thirdFrame] ∧
      ∀ (ops : FloatOps) (policy : Policy) (escalation : EscalationConfig),
        (∀ frame ∈ [sampleFrame half, thirdFrame], (admitFrame ops frame policy).isOk = true) →
        gapsReported (Session.run ops policy escalation
          (((QuicFrameTransport.new gapStream).recvFrames gapSerde 3).filterMap
            receivedFrame)).admitted = 1 := by
  refine ⟨rfl, fun ops policy escalation hadmits => ?_⟩
  have haccount := @stamped_stream_account gapSerde ops policy escalation ⟨1⟩
    [sampleFrame half, shortFrame, sampleFrame half] (by decide)
    (fun frame _ => gap_round_trips frame) gapStream (gap_stream_read ▸ List.prefix_refl _) 3
  rw [gap_received] at haccount ⊢
  have hadmitted := haccount.admitted
  rw [List.filter_eq_self.mpr hadmits] at hadmitted
  obtain ⟨first, rest, hsplit, hfirst, hrest⟩ := List.map_eq_cons_iff.mp hadmitted
  obtain ⟨second, none, hsplit', hsecond, hnone⟩ := List.map_eq_cons_iff.mp hrest
  rw [List.map_eq_nil_iff] at hnone
  subst hnone hsplit'
  have hsum := haccount.account first second (by rw [hsplit]; rfl) (by rw [hsplit]; rfl)
  rw [hfirst, hsecond, hsplit] at hsum
  rw [hsplit]
  change 1 + _ + 2 = 3 + 1 at hsum
  omega

end LatentMesh.Stream
