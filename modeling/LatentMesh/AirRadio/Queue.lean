import Mathlib.Data.List.Induction
import LatentMesh.AirCore.Reassembly
import LatentMesh.AirRadio.Transmitter

/-!
# The transmit queue

Calls on an `AirTransmitter` in any order. `InPlace` writes the enqueue methods as they change
`&mut self`, and `enqueue_message_with_flags_eq` and `enqueue_delta_with_signature_eq` tie them to
the transmitter's model. What has been sent and what is queued are the accepted frames in order
(`Session.Sound`); with a byte transport polling returns them all exactly when the accepted
priorities fit in four bits (`Session.delivers_accepted_iff`).
-/

namespace LatentMesh.AirRadio

open LatentMesh.AirCore

/-- One of the enqueue methods and its arguments. -/
inductive EnqueueCall where
  | enqueueMessage (streamId : UInt16) (semanticClass : SemanticClass) (priority : UInt8)
      (stateTag : UInt16) (message : List UInt8)
  | enqueueDelta (streamId : UInt16) (delta : SemanticDelta) (priority : UInt8)
  | enqueueDeltaWithSignature (streamId : UInt16) (delta : SemanticDelta) (priority : UInt8)
      (signature : Option Signature)

namespace InPlace

/-- `enqueue_message_with_flags`. -/
def enqueueMessageWithFlags (self : AirTransmitter) (streamId : UInt16)
    (semanticClass : SemanticClass) (priority : UInt8) (stateTag : UInt16) (message : List UInt8)
    (flags : FrameFlags) : AirTransmitter × Result UInt16 :=
  let sequence := self.nextSequence
  match fragmentMessage (self.nextMeta streamId semanticClass priority stateTag flags) message
      self.config.link.frameMtu with
  | .error error => (self, .error error)
  | .ok frames =>
      if self.config.maxQueuedFrames < self.queue.length + frames.length then
        (self, .error .limitExceeded)
      else
        let self := { self with queue := self.queue ++ frames }
        ({ self with nextSequence := self.nextSequence + 1 }, .ok sequence)

/-- `enqueue_message`. -/
def enqueueMessage (self : AirTransmitter) (streamId : UInt16) (semanticClass : SemanticClass)
    (priority : UInt8) (stateTag : UInt16) (message : List UInt8) :
    AirTransmitter × Result UInt16 :=
  enqueueMessageWithFlags self streamId semanticClass priority stateTag message
    self.config.link.flags

/-- `enqueue_delta_with_signature`. -/
def enqueueDeltaWithSignature (self : AirTransmitter) (streamId : UInt16) (delta : SemanticDelta)
    (priority : UInt8) (signature : Option Signature) : AirTransmitter × Result UInt16 :=
  match SemanticEnvelope.wrapDelta delta priority self.nextLogicalSequence signature with
  | .error error => (self, .error error)
  | .ok envelope =>
      match envelope.encode with
      | .error error => (self, .error error)
      | .ok encoded =>
          match enqueueMessageWithFlags self streamId .stateDelta priority
              (stateHashTag delta.resultHash) encoded (self.deltaFlags envelope.signature) with
          | (self, .error error) => (self, .error error)
          | (self, .ok sequence) =>
              ({ self with nextLogicalSequence := self.nextLogicalSequence + 1 }, .ok sequence)

/-- `enqueue_delta`. -/
def enqueueDelta (self : AirTransmitter) (streamId : UInt16) (delta : SemanticDelta)
    (priority : UInt8) : AirTransmitter × Result UInt16 :=
  enqueueDeltaWithSignature self streamId delta priority none

/-- A call that queues a message. -/
def enqueue (self : AirTransmitter) : EnqueueCall → AirTransmitter × Result UInt16
  | .enqueueMessage streamId semanticClass priority stateTag message =>
      enqueueMessage self streamId semanticClass priority stateTag message
  | .enqueueDelta streamId delta priority => enqueueDelta self streamId delta priority
  | .enqueueDeltaWithSignature streamId delta priority signature =>
      enqueueDeltaWithSignature self streamId delta priority signature

/-- What a method leaves behind: the old transmitter, or the one that it returns. -/
def settle (self : AirTransmitter) :
    Result (UInt16 × AirTransmitter) → AirTransmitter × Result UInt16
  | .error error => (self, .error error)
  | .ok (sequence, next) => (next, .ok sequence)

variable (self : AirTransmitter)

/-- The call in place is the pure one, with the transmitter kept on an error. -/
theorem enqueue_message_with_flags_eq (streamId : UInt16) (semanticClass : SemanticClass)
    (priority : UInt8) (stateTag : UInt16) (message : List UInt8) (flags : FrameFlags) :
    enqueueMessageWithFlags self streamId semanticClass priority stateTag message flags =
      settle self (self.enqueueMessageWithFlags streamId semanticClass priority stateTag message
        flags) := by
  unfold enqueueMessageWithFlags AirTransmitter.enqueueMessageWithFlags
  cases fragmentMessage (self.nextMeta streamId semanticClass priority stateTag flags) message
      self.config.link.frameMtu with
  | error error => rfl
  | ok frames =>
      dsimp only [Except.bind]
      split <;> rfl

/-- The call in place is the pure one, with the transmitter kept on an error. -/
theorem enqueue_delta_with_signature_eq (streamId : UInt16) (delta : SemanticDelta)
    (priority : UInt8) (signature : Option Signature) :
    enqueueDeltaWithSignature self streamId delta priority signature =
      settle self (self.enqueueDeltaWithSignature streamId delta priority signature) := by
  unfold enqueueDeltaWithSignature AirTransmitter.enqueueDeltaWithSignature
  cases SemanticEnvelope.wrapDelta delta priority self.nextLogicalSequence signature with
  | error error => rfl
  | ok envelope =>
      dsimp only [Except.bind]
      cases envelope.encode with
      | error error => rfl
      | ok encoded =>
          dsimp only
          rw [enqueue_message_with_flags_eq]
          cases self.enqueueMessageWithFlags streamId .stateDelta priority
              (stateHashTag delta.resultHash) encoded (self.deltaFlags envelope.signature) with
          | error error => rfl
          | ok taken => rfl

end InPlace

namespace EnqueueCall

/-- The metadata and the bytes of the message that carries a delta. -/
def deltaContent (self : AirTransmitter) (streamId : UInt16) (delta : SemanticDelta)
    (priority : UInt8) (signature : Option Signature) : Result (FragmentMeta × List UInt8) :=
  (SemanticEnvelope.wrapDelta delta priority self.nextLogicalSequence signature).bind
    fun envelope =>
  envelope.encode.bind fun encoded =>
  .ok (self.nextMeta streamId .stateDelta priority (stateHashTag delta.resultHash)
    (self.deltaFlags envelope.signature), encoded)

/-- The metadata and the bytes of the message that a call enqueues. -/
def content (self : AirTransmitter) : EnqueueCall → Result (FragmentMeta × List UInt8)
  | .enqueueMessage streamId semanticClass priority stateTag message =>
      .ok (self.nextMeta streamId semanticClass priority stateTag self.config.link.flags, message)
  | .enqueueDelta streamId delta priority => deltaContent self streamId delta priority none
  | .enqueueDeltaWithSignature streamId delta priority signature =>
      deltaContent self streamId delta priority signature

end EnqueueCall

/-! ## What an enqueue does -/

namespace InPlace

variable {self next : AirTransmitter} {call : EnqueueCall} {sequence : UInt16}

/-- The frames of an accepted message are queued behind the others. -/
structure Accepts (before after : AirTransmitter) (info : FragmentMeta) (message : List UInt8) :
    Prop where
  config_eq : after.config = before.config
  queued : ∃ frames, fragmentMessage info message before.config.link.frameMtu = .ok frames ∧
    after.queue = before.queue ++ frames

/-- A call is refused and changes nothing, or queues the fragments of the message. -/
theorem enqueue_message_with_flags_cases {streamId stateTag : UInt16}
    {semanticClass : SemanticClass} {priority : UInt8} {message : List UInt8} {flags : FrameFlags}
    {result : Result UInt16}
    (h : enqueueMessageWithFlags self streamId semanticClass priority stateTag message flags =
      (next, result)) :
    (next = self ∧ ∃ error, result = .error error) ∨
      (result = .ok self.nextSequence ∧ Accepts self next
        (self.nextMeta streamId semanticClass priority stateTag flags) message) := by
  unfold enqueueMessageWithFlags at h
  split at h
  · cases h
    exact Or.inl ⟨rfl, _, rfl⟩
  · rename_i frames hframes
    split at h
    · cases h
      exact Or.inl ⟨rfl, _, rfl⟩
    · cases h
      exact Or.inr ⟨rfl, rfl, frames, hframes, rfl⟩

/-- A call is refused and changes nothing, or queues the fragments of the envelope. -/
theorem enqueue_delta_with_signature_cases {streamId : UInt16} {delta : SemanticDelta}
    {priority : UInt8} {signature : Option Signature} {result : Result UInt16}
    (h : enqueueDeltaWithSignature self streamId delta priority signature = (next, result)) :
    (next = self ∧ ∃ error, result = .error error) ∨
      ∃ info message, EnqueueCall.deltaContent self streamId delta priority signature =
        .ok (info, message) ∧ result = .ok self.nextSequence ∧
        Accepts self next info message := by
  unfold enqueueDeltaWithSignature at h
  split at h
  · cases h
    exact Or.inl ⟨rfl, _, rfl⟩
  · rename_i envelope hwrap
    split at h
    · cases h
      exact Or.inl ⟨rfl, _, rfl⟩
    · rename_i encoded hencode
      split at h
      · rename_i queued error hqueue
        cases h
        rcases enqueue_message_with_flags_cases hqueue with ⟨rfl, -⟩ | ⟨hok, -⟩
        · exact Or.inl ⟨rfl, _, rfl⟩
        · cases hok
      · rename_i queued taken hqueue
        cases h
        rcases enqueue_message_with_flags_cases hqueue with ⟨-, error, herror⟩ | ⟨hok, haccepts⟩
        · cases herror
        · refine Or.inr ⟨_, encoded, ?_, hok, haccepts.config_eq, haccepts.queued⟩
          rw [EnqueueCall.deltaContent, hwrap]
          dsimp only [Except.bind]
          rw [hencode]

/-- What an enqueue does: it fails and changes nothing, or it accepts its message. -/
theorem enqueue_cases {result : Result UInt16} (h : enqueue self call = (next, result)) :
    (next = self ∧ ∃ error, result = .error error) ∨
      ∃ info message, call.content self = .ok (info, message) ∧ result = .ok self.nextSequence ∧
        Accepts self next info message := by
  cases call with
  | enqueueMessage streamId semanticClass priority stateTag message =>
      rcases enqueue_message_with_flags_cases h with hrefused | haccepted
      · exact Or.inl hrefused
      · exact Or.inr ⟨_, message, rfl, haccepted⟩
  | enqueueDelta streamId delta priority => exact enqueue_delta_with_signature_cases h
  | enqueueDeltaWithSignature streamId delta priority signature =>
      exact enqueue_delta_with_signature_cases h

end InPlace

/-! ## Sessions -/

/-- The calls on a transmitter. -/
inductive TransmitterCall where
  | enqueue (call : EnqueueCall)
  | nextTransmission

/-- A transmitter, the messages that it has accepted, and what polling it has returned. -/
structure Session where
  transmitter : AirTransmitter
  accepted : List (FragmentMeta × List UInt8)
  sent : List (Result Transmission)

/-- The frames of a message. -/
def messageFrames (frameMtu : Nat) (content : FragmentMeta × List UInt8) :
    List SparseRadioFrame :=
  match fragmentMessage content.1 content.2 frameMtu with
  | .ok frames => frames
  | .error _ => []

/-- What a poll returns, when there was something to send. -/
def polled : Result (Option Transmission) → List (Result Transmission)
  | .ok none => []
  | .ok (some transmission) => [.ok transmission]
  | .error error => [.error error]

namespace Session

/-- A call, with what it accepts and sends. -/
def step (modems : Modems) (self : Session) : TransmitterCall → Session
  | .enqueue call =>
      let (transmitter, result) := InPlace.enqueue self.transmitter call
      match result, call.content self.transmitter with
      | .ok _, .ok content => { self with transmitter, accepted := self.accepted ++ [content] }
      | _, _ => { self with transmitter }
  | .nextTransmission =>
      let (transmitter, result) := self.transmitter.nextTransmission modems
      { self with transmitter, sent := self.sent ++ polled result }

/-- A session of calls. -/
def run (modems : Modems) (transmitter : AirTransmitter) (calls : List TransmitterCall) : Session :=
  calls.foldl (step modems) { transmitter, accepted := [], sent := [] }

/-- The frames of the accepted messages, in order. -/
def frames (self : Session) : List SparseRadioFrame :=
  self.accepted.flatMap (messageFrames self.transmitter.config.link.frameMtu)

/-- What the next polls return. -/
def polls (modems : Modems) : Nat → AirTransmitter → List (Result Transmission)
  | 0, _ => []
  | count + 1, transmitter =>
      let (transmitter, result) := transmitter.nextTransmission modems
      polled result ++ polls modems count transmitter

/-- The transmitter delivers what it accepts: the polls of the session and those that empty the
queue return every frame of every accepted message, in order, and an enqueue that fails changes
neither the queue nor the counters. -/
structure Delivers (modems : Modems) (transmitter : AirTransmitter)
    (calls : List TransmitterCall) : Prop where
  fifo : let session := run modems transmitter calls
    session.sent ++ polls modems session.transmitter.queue.length session.transmitter =
      session.frames.map fun frame => .ok (.bytes frame frame.wire)
  kept : ∀ before call after error, calls = before ++ .enqueue call :: after →
    let earlier := (run modems transmitter before).transmitter
    let later := (run modems transmitter (before ++ [.enqueue call])).transmitter
    (InPlace.enqueue earlier call).2 = .error error →
      later.queue = earlier.queue ∧ later.nextSequence = earlier.nextSequence ∧
        later.nextLogicalSequence = earlier.nextLogicalSequence

/-! ## What polling returns -/

/-- What a byte transport makes of a queued frame. -/
def sendFrame (frame : SparseRadioFrame) : Result Transmission :=
  frame.encode.bind fun bytes => .ok (.bytes frame bytes)

/-- A valid frame, and no other, is sent as its wire. -/
theorem send_frame_eq_ok_iff {frame : SparseRadioFrame} :
    sendFrame frame = .ok (.bytes frame frame.wire) ↔ frame.Valid := by
  rw [sendFrame, Lib.bind_eq_ok_iff]
  constructor
  · rintro ⟨bytes, hencode, -⟩
    exact (SparseRadioFrame.encode_eq_ok_iff.mp hencode).1
  · exact fun hvalid => ⟨_, SparseRadioFrame.encode_eq_ok_iff.mpr ⟨hvalid, rfl⟩, rfl⟩

variable {modems : Modems} {transmitter : AirTransmitter}

/-- A poll of a byte transport sends the first queued frame. -/
theorem next_transmission_cons (hlink : transmitter.config.link.modulation = .byteTransport)
    {frame : SparseRadioFrame} {queue : List SparseRadioFrame}
    (hqueue : transmitter.queue = frame :: queue) :
    (transmitter.nextTransmission modems).1 = { transmitter with queue } ∧
      polled (transmitter.nextTransmission modems).2 = [sendFrame frame] := by
  rw [AirTransmitter.nextTransmission, hqueue]
  refine ⟨rfl, ?_⟩
  dsimp only
  rw [sendFrame]
  cases frame.encode with
  | error error => rfl
  | ok bytes =>
      dsimp only [Except.bind]
      rw [AirTransmitter.transmission, hlink]
      rfl

/-- On a byte transport the polls send the frames of the queue in order. -/
theorem polls_eq (hlink : transmitter.config.link.modulation = .byteTransport) :
    polls modems transmitter.queue.length transmitter = transmitter.queue.map sendFrame := by
  generalize hqueue : transmitter.queue = queue
  induction queue generalizing transmitter with
  | nil => rfl
  | cons frame queue ih =>
      obtain ⟨hnext, hpolled⟩ := @next_transmission_cons modems _ hlink _ _ hqueue
      show polled (transmitter.nextTransmission modems).2 ++
        polls modems queue.length (transmitter.nextTransmission modems).1 = _
      rw [hpolled, hnext, @ih { transmitter with queue } hlink rfl]
      rfl

/-- The invariant: what has been sent and what is queued are the accepted frames, in order. -/
structure Sound (config : TransmitterConfig) (session : Session) : Prop where
  config_eq : session.transmitter.config = config
  accepted : ∀ content ∈ session.accepted, ∃ frames,
    fragmentMessage content.1 content.2 config.link.frameMtu = .ok frames
  frames : session.sent ++ session.transmitter.queue.map sendFrame = session.frames.map sendFrame

variable {config : TransmitterConfig} {session : Session}

/-- The transmitter after a call that queues a message. -/
theorem step_enqueue_transmitter (session : Session) (call : EnqueueCall) :
    (session.step modems (.enqueue call)).transmitter =
      (InPlace.enqueue session.transmitter call).1 := by
  rw [step]
  dsimp only
  split <;> rfl

/-- A queued message keeps the session sound. -/
theorem Sound.enqueue (h : Sound config session) (call : EnqueueCall) :
    Sound config (session.step modems (.enqueue call)) := by
  cases hcall : InPlace.enqueue session.transmitter call with
  | mk next result =>
      rcases InPlace.enqueue_cases hcall with ⟨rfl, error, rfl⟩ |
        ⟨info, message, hcontent, rfl, haccepts⟩
      · have hstep : session.step modems (.enqueue call) = session := by
          simp only [step, hcall]
        rw [hstep]
        exact h
      · have hstep : session.step modems (.enqueue call) =
            { session with
              transmitter := next, accepted := session.accepted ++ [(info, message)] } := by
          simp only [step, hcall, hcontent]
        obtain ⟨frames, hframes, hqueue⟩ := haccepts.queued
        have hconfig : next.config = config := haccepts.config_eq.trans h.config_eq
        rw [h.config_eq] at hframes
        rw [hstep]
        refine ⟨hconfig, fun content hcontent => ?_, ?_⟩
        · rcases List.mem_append.mp hcontent with hold | hnew
          · exact h.accepted content hold
          · rw [List.mem_singleton.mp hnew]
            exact ⟨frames, hframes⟩
        · have hold := h.frames
          simp only [Session.frames, h.config_eq] at hold
          simp only [Session.frames, hconfig, hqueue, List.map_append, List.flatMap_append,
            List.flatMap_singleton, messageFrames, hframes]
          rw [← List.append_assoc, hold]

/-- A poll keeps the session sound. -/
theorem Sound.poll (h : Sound config session) (hlink : config.link.modulation = .byteTransport) :
    Sound config (session.step modems .nextTransmission) := by
  have hstep : session.step modems .nextTransmission =
      { session with
        transmitter := (session.transmitter.nextTransmission modems).1
        sent := session.sent ++ polled (session.transmitter.nextTransmission modems).2 } := rfl
  rw [hstep]
  cases hqueue : session.transmitter.queue with
  | nil =>
      have hpoll : session.transmitter.nextTransmission modems =
          (session.transmitter, .ok none) := by
        rw [AirTransmitter.nextTransmission, hqueue]
      rw [hpoll]
      exact ⟨h.config_eq, h.accepted, by simpa [polled, Session.frames] using h.frames⟩
  | cons frame queue =>
      obtain ⟨hnext, hpolled⟩ :=
        @next_transmission_cons modems _ (h.config_eq ▸ hlink) _ _ hqueue
      have hold := h.frames
      rw [hqueue] at hold
      rw [hnext, hpolled]
      refine ⟨h.config_eq, h.accepted, ?_⟩
      rw [List.append_assoc]
      exact hold

/-- The invariant over a run of calls. -/
theorem run_sound (hnew : AirTransmitter.new config = .ok transmitter)
    (hlink : config.link.modulation = .byteTransport) (calls : List TransmitterCall) :
    Sound config (run modems transmitter calls) := by
  have hconfig : transmitter.config = config := by
    obtain ⟨-, -, hchecked⟩ := Lib.bind_eq_ok_iff.mp hnew
    cases (Lib.guard_eq_ok_iff.mp hchecked).2
    rfl
  have hqueue : transmitter.queue = [] := by
    obtain ⟨-, -, hchecked⟩ := Lib.bind_eq_ok_iff.mp hnew
    cases (Lib.guard_eq_ok_iff.mp hchecked).2
    rfl
  induction calls using List.reverseRecOn with
  | nil =>
      refine ⟨hconfig, fun _ hcontent => absurd hcontent List.not_mem_nil, ?_⟩
      show [] ++ transmitter.queue.map sendFrame = _
      rw [hqueue]
      rfl
  | append_singleton calls call ih =>
      rw [run, List.foldl_append]
      cases call with
      | enqueue call => exact @Sound.enqueue modems config _ ih call
      | nextTransmission => exact ih.poll hlink

/-- The frames of a session are those of the accepted messages. -/
theorem Sound.mem_frames (h : Sound config session) {frame : SparseRadioFrame} :
    frame ∈ session.frames ↔ ∃ content ∈ session.accepted, ∃ frames,
      fragmentMessage content.1 content.2 config.link.frameMtu = .ok frames ∧ frame ∈ frames := by
  rw [Session.frames, h.config_eq, List.mem_flatMap]
  refine exists_congr fun content => and_congr_right fun hcontent => ?_
  obtain ⟨frames, hframes⟩ := h.accepted content hcontent
  simp [messageFrames, hframes]

/-- With a byte transport the transmitter delivers what it accepts exactly when the accepted
priorities fit in four bits: a frame with another priority leaves the queue before `encode` refuses
it. -/
theorem delivers_accepted_iff (hnew : AirTransmitter.new config = .ok transmitter)
    (hlink : config.link.modulation = .byteTransport) (calls : List TransmitterCall) :
    Delivers modems transmitter calls ↔
      ∀ content ∈ (run modems transmitter calls).accepted, content.1.priority ≤ 15 := by
  have hsound : Sound config (run modems transmitter calls) := run_sound hnew hlink calls
  have hpolls := @polls_eq modems _ (hsound.config_eq ▸ hlink)
  have hvalid : (run modems transmitter calls).frames.map sendFrame =
      ((run modems transmitter calls).frames.map fun frame => .ok (.bytes frame frame.wire)) ↔
      ∀ frame ∈ (run modems transmitter calls).frames, frame.Valid := by
    rw [List.map_inj_left]
    exact forall₂_congr fun frame _ => send_frame_eq_ok_iff
  constructor
  · intro h content hcontent
    -- every frame of an accepted message is popped, so it has to encode
    have hfifo := h.fifo
    dsimp only at hfifo
    rw [hpolls, hsound.frames, hvalid] at hfifo
    obtain ⟨frames, hframes⟩ := hsound.accepted content hcontent
    obtain ⟨frame, hframe⟩ := List.exists_mem_of_ne_nil _ (fragment_ne_nil hframes)
    exact (fragment_valid_iff hframes hframe).mp
      (hfifo frame (hsound.mem_frames.mpr ⟨content, hcontent, frames, hframes, hframe⟩))
  · intro hpriority
    refine ⟨?_, fun before call after error _ => ?_⟩
    · dsimp only
      rw [hpolls, hsound.frames, hvalid]
      intro frame hmem
      obtain ⟨content, hcontent, frames, hframes, hframe⟩ := hsound.mem_frames.mp hmem
      exact (fragment_valid_iff hframes hframe).mpr (hpriority content hcontent)
    · intro earlier later herror
      have hlater : later = (InPlace.enqueue earlier call).1 := by
        show (run modems transmitter (before ++ [.enqueue call])).transmitter = _
        rw [run, List.foldl_append]
        exact @step_enqueue_transmitter modems _ call
      rcases InPlace.enqueue_cases (Prod.mk.eta (p := InPlace.enqueue earlier call)).symm with
        ⟨hsame, -⟩ | ⟨_, _, -, hok, -⟩
      · rw [hlater, hsame]
        exact ⟨rfl, rfl, rfl⟩
      · rw [hok] at herror
        cases herror

/-- A fresh transmitter on a byte transport. -/
def wifiTransmitter : AirTransmitter := ⟨.forLink (.forProfile .wifi), 0, 0, []⟩

/-- A byte transport calls no modem. -/
def noModems : Modems := ⟨fun _ _ => .error .invalidLength, fun _ _ => .error .invalidLength⟩

/-- A one-byte message. -/
def byteMessage (priority : UInt8) : TransmitterCall :=
  .enqueue (.enqueueMessage 7 .telemetry priority 0 [42])

/-- A message of the highest priority among others is delivered. -/
theorem delivers_accepted_urgent :
    Delivers noModems wifiTransmitter [byteMessage 15, .nextTransmission, byteMessage 0] :=
  (@delivers_accepted_iff _ _ (.forLink (.forProfile .wifi)) rfl rfl _).mpr
    fun content hcontent => by
      have hmem : content ∈ [((⟨.wifi, FrameFlags.none, 7, 0, .telemetry, 15, 0⟩ : FragmentMeta),
          [(42 : UInt8)]), (⟨.wifi, FrameFlags.none, 7, 1, .telemetry, 0, 0⟩, [42])] := hcontent
      rcases List.mem_pair.mp hmem with rfl | rfl <;> decide

/-- A message of priority 16 is accepted, and polling loses its frame. -/
theorem priority_sixteen_is_lost :
    AirTransmitter.new (.forLink (.forProfile .wifi)) = .ok wifiTransmitter ∧
      (InPlace.enqueue wifiTransmitter (.enqueueMessage 7 .telemetry 16 0 [42])).2 = .ok 0 ∧
      ¬ Delivers noModems wifiTransmitter [byteMessage 16] := by
  refine ⟨rfl, rfl, fun h => ?_⟩
  have hfifo : [(.error .invalidLength : Result Transmission)] = [.ok (.bytes _ _)] := h.fifo
  cases hfifo

end Session

end LatentMesh.AirRadio
