import Mathlib.Data.List.Induction
import LatentMesh.AirCore.Contexts
import LatentMesh.Lib.Transition
import LatentMesh.Meshtastic.Adapter
import LatentMesh.Meshtastic.FramingAgreement

/-!
# The streaming receiver and bad packets

A push that meets a bad body returns early, and the bodies behind it stay in the decoder. So every
body of the stream is ingested once and in order, whatever the others are: the messages so far are
those of the bodies that have been taken (`Reception.Sound`), and all bodies have been taken when a
push returns `Ok` (`Reception.isolates_bad_packets`).
-/

namespace LatentMesh.Meshtastic

open LatentMesh.AirCore (ReassembledMessage Reassembler frameMaxPayload)

/-- The messages among the answers. -/
def handed (answers : List (Result (Option ReassembledMessage))) : List ReassembledMessage :=
  answers.flatMap fun answer =>
    match answer with
    | .ok (some message) => [message]
    | _ => []

/-- Ingest every body in order, whatever the answers. -/
def MeshtasticAdapter.ingestAll (self : MeshtasticAdapter) :
    List (List UInt8) → MeshtasticAdapter × List (Result (Option ReassembledMessage))
  | [] => (self, [])
  | body :: bodies =>
      let (self, answer) := self.ingestFromRadio body
      let (self, answers) := self.ingestAll bodies
      (self, answer :: answers)

/-- Joined bodies are ingested part by part. -/
theorem MeshtasticAdapter.ingest_all_append (self : MeshtasticAdapter)
    (first second : List (List UInt8)) :
    self.ingestAll (first ++ second) =
      (((self.ingestAll first).1.ingestAll second).1,
        (self.ingestAll first).2 ++ ((self.ingestAll first).1.ingestAll second).2) := by
  induction first generalizing self with
  | nil => rfl
  | cons body first ih =>
      simp only [List.cons_append, ingestAll]
      rw [ih]

/-- All framed bodies of a stream. -/
def framedBodies (stream : List UInt8) : List (List UInt8) :=
  (FrameDecoder.new.receive [stream]).2

/-- The bodies of a stream are those the decoder has ready. -/
theorem framed_bodies_eq (stream : List UInt8) :
    framedBodies stream = (FrameDecoder.new.push stream).ready := by
  rw [framedBodies, FrameDecoder.receive_eq _ rfl, List.flatten_singleton]

/-- The bodies of the beginning of a stream come first. -/
theorem framed_bodies_append (first second : List UInt8) :
    ∃ more, framedBodies (first ++ second) = framedBodies first ++ more := by
  rw [framed_bodies_eq, framed_bodies_eq, FrameDecoder.push_append, FrameDecoder.push_ready]
  exact ⟨_, rfl⟩

/-! ## One push -/

namespace StreamingReceiver

/-- What the loop of `push` has done when it returns: it has ingested the bodies up to the first bad
one, or all of them. -/
structure Ingested (before after : StreamingReceiver) (result : Result Unit)
    (taken left : List (List UInt8)) : Prop where
  bodies : before.decoder.ready = taken ++ left
  decoder : after.decoder = { before.decoder with ready := left }
  adapter : after.adapter = (before.adapter.ingestAll taken).1
  messages : after.ready = before.ready ++ handed (before.adapter.ingestAll taken).2
  all : result = .ok () → left = []
  refused : ∀ error, result = .error error → .error error ∈ (before.adapter.ingestAll taken).2

/-- A push that fails has taken a body. -/
theorem Ingested.taken_ne_nil {before after : StreamingReceiver} {result : Result Unit}
    {taken left : List (List UInt8)} (h : Ingested before after result taken left)
    (hresult : result ≠ .ok ()) : taken ≠ [] := by
  rintro rfl
  cases result with
  | ok done => exact hresult rfl
  | error error => exact List.not_mem_nil (h.refused error rfl)

/-- A body that is not bad is followed by the next one. -/
theorem Ingested.cons {before middle after : StreamingReceiver} {result : Result Unit}
    {body : List UInt8} {taken left : List (List UInt8)}
    (hready : before.decoder.ready = body :: middle.decoder.ready)
    (hdecoder : middle.decoder = { before.decoder with ready := middle.decoder.ready })
    (hadapter : middle.adapter = (before.adapter.ingestFromRadio body).1)
    (hmessages : middle.ready = before.ready ++ handed [(before.adapter.ingestFromRadio body).2])
    (h : Ingested middle after result taken left) :
    Ingested before after result (body :: taken) left := by
  have hall : before.adapter.ingestAll (body :: taken) = ((middle.adapter.ingestAll taken).1,
      (before.adapter.ingestFromRadio body).2 :: (middle.adapter.ingestAll taken).2) := by
    rw [hadapter]
    rfl
  refine ⟨?_, ?_, ?_, ?_, h.all, fun error herror => ?_⟩
  · rw [hready, h.bodies, List.cons_append]
  · rw [h.decoder, hdecoder]
  · rw [h.adapter, hall]
  · rw [h.messages, hall, hmessages, List.append_assoc, handed, handed, handed,
      ← List.flatMap_append, List.singleton_append]
  · rw [hall]
    exact List.mem_cons_of_mem _ (h.refused error herror)

/-- `ingest_ready` takes bodies up to the first message or error. -/
theorem ingest_ready_spec (self : StreamingReceiver) :
    ∃ taken left, Ingested self self.ingestReady.1 self.ingestReady.2 taken left := by
  obtain ⟨adapter, ⟨state, buffer, bodies⟩, ready⟩ := self
  induction bodies generalizing adapter ready with
  | nil =>
      refine ⟨[], [], ?_⟩
      rw [ingestReady]
      exact ⟨rfl, rfl, rfl, (List.append_nil _).symm, fun _ => rfl, fun _ h => by cases h⟩
  | cons body bodies ih =>
      rw [ingestReady]
      dsimp only [FrameDecoder.pull]
      cases hingest : adapter.ingestFromRadio body with
      | mk next answer =>
          have hnext : next = (adapter.ingestFromRadio body).1 := by rw [hingest]
          have hall : adapter.ingestAll [body] = (next, [answer]) := by
            simp only [MeshtasticAdapter.ingestAll, hingest]
          cases answer with
          | error error =>
              refine ⟨[body], bodies, rfl, rfl, ?_, ?_, fun h => ?_, fun other hother => ?_⟩
              · rw [hall]
              · rw [hall]
                exact (List.append_nil _).symm
              · cases h
              · cases hother
                rw [hall]
                exact List.mem_cons_self ..
          | ok message =>
              cases message with
              | none =>
                  obtain ⟨taken, left, h⟩ := ih next ready
                  refine ⟨body :: taken, left, h.cons rfl rfl hnext ?_⟩
                  rw [hingest]
                  exact (List.append_nil _).symm
              | some message =>
                  obtain ⟨taken, left, h⟩ := ih next (ready ++ [message])
                  refine ⟨body :: taken, left, h.cons rfl rfl hnext ?_⟩
                  rw [hingest]
                  rfl

end StreamingReceiver

/-! ## Runs -/

/-- The calls on a receiver. -/
inductive ReceiverCall where
  | push (chunk : List UInt8)
  | nextMessage

/-- A receiver, the bytes that were pushed, and the messages that were pulled. -/
structure Reception where
  receiver : StreamingReceiver
  received : List UInt8
  delivered : List ReassembledMessage

namespace Reception

/-- A call, with the message it returns. -/
def step (self : Reception) : ReceiverCall → Reception
  | .push chunk =>
      { self with receiver := (self.receiver.push chunk).1, received := self.received ++ chunk }
  | .nextMessage =>
      { self with
        receiver := self.receiver.nextMessage.1
        delivered := self.delivered ++ self.receiver.nextMessage.2.toList }

/-- A reception of some calls. -/
def run (self : Reception) (calls : List ReceiverCall) : Reception := calls.foldl step self

/-- A receiver that has seen nothing. -/
def start (adapter : MeshtasticAdapter) : Reception := ⟨.new adapter, [], []⟩

/-- One call more. -/
theorem run_concat (self : Reception) (calls : List ReceiverCall) (call : ReceiverCall) :
    self.run (calls ++ [call]) = (self.run calls).step call := by
  rw [run, List.foldl_append]
  rfl

/-- The invariant: the bodies of the stream have been ingested in order, up to those that the
decoder still has. -/
structure Sound (initial : MeshtasticAdapter) (reception : Reception)
    (processed : List (List UInt8)) : Prop where
  decoder : reception.receiver.decoder = { FrameDecoder.new.push reception.received with
    ready := reception.receiver.decoder.ready }
  bodies : framedBodies reception.received = processed ++ reception.receiver.decoder.ready
  adapter : reception.receiver.adapter = (initial.ingestAll processed).1
  messages : reception.delivered ++ reception.receiver.ready =
    handed (initial.ingestAll processed).2

variable {adapter : MeshtasticAdapter} {reception : Reception} {processed : List (List UInt8)}

/-- A chunk keeps the reception sound. -/
theorem Sound.push (h : Sound adapter reception processed) (chunk : List UInt8) :
    ∃ taken, Sound adapter (reception.step (.push chunk)) (processed ++ taken) ∧
      ((reception.receiver.push chunk).2 = .ok () →
        (reception.step (.push chunk)).receiver.decoder.ready = []) ∧
      ((reception.receiver.push chunk).2 ≠ .ok () → taken ≠ []) ∧
      ∀ error, (reception.receiver.push chunk).2 = .error error →
        .error error ∈ (adapter.ingestAll (processed ++ taken)).2 := by
  -- the decoder gets the chunk first, and the loop then takes bodies from it
  obtain ⟨taken, left, hingested⟩ := StreamingReceiver.ingest_ready_spec
    { reception.receiver with decoder := reception.receiver.decoder.push chunk }
  have hfed := FrameDecoder.push_ready reception.receiver.decoder chunk
  have hwhole := FrameDecoder.push_ready (FrameDecoder.new.push reception.received) chunk
  rw [← FrameDecoder.push_append] at hwhole
  have hbuffer : ({ reception.receiver.decoder with ready := [] } : FrameDecoder) =
      { FrameDecoder.new.push reception.received with ready := [] } := by
    rw [h.decoder]
  rw [hbuffer] at hfed
  have hleft : (reception.step (.push chunk)).receiver.decoder.ready = left :=
    congrArg FrameDecoder.ready hingested.decoder
  refine ⟨taken, ⟨?_, ?_, ?_, ?_⟩, fun hok => hleft.trans (hingested.all hok),
    hingested.taken_ne_nil, fun error herror => ?_⟩
  · rw [hleft]
    refine hingested.decoder.trans ?_
    show ({ reception.receiver.decoder.push chunk with ready := left } : FrameDecoder) =
      { FrameDecoder.new.push (reception.received ++ chunk) with ready := left }
    rw [hfed, hwhole]
  · have hbodies := h.bodies
    have hready := hingested.bodies
    rw [framed_bodies_eq] at hbodies
    rw [hleft, framed_bodies_eq]
    show (FrameDecoder.new.push (reception.received ++ chunk)).ready = _
    rw [hwhole, List.append_assoc, ← hready]
    show (FrameDecoder.new.push reception.received).ready ++ _ =
      processed ++ (reception.receiver.decoder.push chunk).ready
    rw [hfed, hbodies, List.append_assoc]
  · refine hingested.adapter.trans ?_
    rw [MeshtasticAdapter.ingest_all_append, ← h.adapter]
  · rw [MeshtasticAdapter.ingest_all_append, ← h.adapter, handed, List.flatMap_append, ← handed,
      ← handed, ← h.messages, List.append_assoc, ← hingested.messages]
    rfl
  · rw [MeshtasticAdapter.ingest_all_append, ← h.adapter]
    exact List.mem_append_right _ (hingested.refused error herror)

/-- Taking a message keeps the reception sound. -/
theorem Sound.next_message (h : Sound adapter reception processed) :
    Sound adapter (reception.step .nextMessage) processed := by
  obtain ⟨⟨inner, decoder, ready⟩, received, delivered⟩ := reception
  cases ready with
  | nil =>
      refine ⟨h.decoder, h.bodies, h.adapter, ?_⟩
      rw [← h.messages]
      show delivered ++ [] ++ [] = delivered ++ []
      rw [List.append_nil]
  | cons message ready =>
      refine ⟨h.decoder, h.bodies, h.adapter, ?_⟩
      rw [← h.messages]
      exact List.append_assoc delivered [message] ready

/-- The invariant over a run of calls. -/
theorem run_sound (adapter : MeshtasticAdapter) (calls : List ReceiverCall) :
    ∃ processed, Sound adapter ((start adapter).run calls) processed := by
  induction calls using List.reverseRecOn with
  | nil => exact ⟨[], rfl, by rw [framed_bodies_eq]; rfl, rfl, rfl⟩
  | append_singleton calls call ih =>
      obtain ⟨processed, h⟩ := ih
      rw [run_concat]
      cases call with
      | push chunk =>
          obtain ⟨taken, hpush, -⟩ := h.push chunk
          exact ⟨_, hpush⟩
      | nextMessage => exact ⟨processed, h.next_message⟩

/-- Pulling hands over the ready messages in order. -/
theorem run_next_message (self : Reception) :
    (self.run (List.replicate self.receiver.ready.length .nextMessage)).delivered =
      self.delivered ++ self.receiver.ready := by
  obtain ⟨⟨inner, decoder, ready⟩, received, delivered⟩ := self
  induction ready generalizing delivered with
  | nil => exact (List.append_nil _).symm
  | cons message ready ih =>
      refine (ih (delivered ++ [message])).trans ?_
      exact List.append_assoc delivered [message] ready

/-- When no body of the stream is refused, a push returns `Ok`, and no call leaves bodies in the
decoder. -/
theorem Sound.accepts (h : Sound adapter reception processed)
    (hready : reception.receiver.decoder.ready = []) {call : ReceiverCall}
    (haccepted : ∀ error, .error error ∉
      (adapter.ingestAll (framedBodies (reception.step call).received)).2) :
    (∀ chunk, call = .push chunk → (reception.receiver.push chunk).2 = .ok ()) ∧
      (reception.step call).receiver.decoder.ready = [] := by
  cases call with
  | push chunk =>
      obtain ⟨taken, hnext, hall, -, hrefused⟩ := h.push chunk
      rw [hnext.bodies, MeshtasticAdapter.ingest_all_append] at haccepted
      have hok : (reception.receiver.push chunk).2 = .ok () := by
        cases hresult : (reception.receiver.push chunk).2 with
        | ok done => rfl
        | error error =>
            exact absurd (List.mem_append_left _ (hrefused error hresult)) (haccepted error)
      refine ⟨fun other heq => ?_, hall hok⟩
      cases heq
      exact hok
  | nextMessage =>
      refine ⟨fun _ heq => (by cases heq), ?_⟩
      rw [← hready]
      show (StreamingReceiver.nextMessage _).1.decoder.ready = _
      unfold StreamingReceiver.nextMessage
      split <;> rfl

/-- A call only adds bodies to the stream. -/
theorem framed_bodies_step (self : Reception) (call : ReceiverCall) :
    ∃ more, framedBodies (self.step call).received = framedBodies self.received ++ more := by
  cases call with
  | push chunk => exact framed_bodies_append _ chunk
  | nextMessage => exact ⟨[], (List.append_nil _).symm⟩

/-- When no body of the stream is refused, every push returns `Ok` and leaves the decoder without
bodies. -/
theorem run_accepts (adapter : MeshtasticAdapter) {calls : List ReceiverCall}
    (haccepted : ∀ error, .error error ∉
      (adapter.ingestAll (framedBodies ((start adapter).run calls).received)).2) :
    (∀ before call after, calls = before ++ call :: after → ∀ chunk, call = .push chunk →
      (((start adapter).run before).receiver.push chunk).2 = .ok ()) ∧
    ((start adapter).run calls).receiver.decoder.ready = [] := by
  induction calls using List.reverseRecOn with
  | nil => exact ⟨Lib.forall_split_nil, rfl⟩
  | append_singleton calls call ih =>
      rw [run_concat] at haccepted ⊢
      obtain ⟨more, hmore⟩ := framed_bodies_step ((start adapter).run calls) call
      obtain ⟨hpushes, hready⟩ := ih fun error hmem => by
        rw [hmore, MeshtasticAdapter.ingest_all_append] at haccepted
        exact haccepted error (List.mem_append_left _ hmem)
      obtain ⟨processed, h⟩ := run_sound adapter calls
      obtain ⟨hlast, hleft⟩ := h.accepts hready haccepted
      exact ⟨Lib.forall_split_concat.mpr ⟨hpushes, hlast⟩, hleft⟩

/-- Pushing nothing returns `Ok` after a while: every error takes a body from the decoder. -/
theorem Sound.exists_ok (h : Sound adapter reception processed) :
    ∃ count, ((reception.run (List.replicate count (.push []))).receiver.push []).2 = .ok () := by
  induction hcount : reception.receiver.decoder.ready.length using Nat.strong_induction_on
    generalizing reception processed with
  | _ count ih =>
      subst hcount
      by_cases hok : (reception.receiver.push []).2 = .ok ()
      · exact ⟨0, hok⟩
      · obtain ⟨taken, hnext, -, hprogress, -⟩ := h.push []
        have htaken := List.length_pos_iff.mpr (hprogress hok)
        have hbodies := hnext.bodies
        rw [show (reception.step (.push [])).received = reception.received from
          List.append_nil _, h.bodies, List.append_assoc] at hbodies
        have hlength := congrArg List.length (List.append_cancel_left hbodies)
        rw [List.length_append] at hlength
        obtain ⟨count, hcount⟩ := ih _ (by omega) hnext rfl
        exact ⟨count + 1, hcount⟩

/-- At any time the messages so far are those of the bodies that the decoder does not have any more.
Once a push returns `Ok`, the caller gets the messages that ingesting every framed body of the
stream in order gives, and pushing nothing returns `Ok` after finitely many errors. -/
theorem isolates_bad_packets (adapter : MeshtasticAdapter) (calls : List ReceiverCall) :
    (∃ processed, framedBodies ((start adapter).run calls).received =
        processed ++ ((start adapter).run calls).receiver.decoder.ready ∧
      ((start adapter).run calls).delivered ++ ((start adapter).run calls).receiver.ready =
        handed (adapter.ingestAll processed).2) ∧
    (∀ chunk, (((start adapter).run calls).receiver.push chunk).2 = .ok () →
      let done := (start adapter).run (calls ++ [.push chunk])
      (done.run (List.replicate done.receiver.ready.length .nextMessage)).delivered =
        handed (adapter.ingestAll (framedBodies done.received)).2) ∧
    ∃ count, ((((start adapter).run calls).run
      (List.replicate count (.push []))).receiver.push []).2 = .ok () := by
  obtain ⟨processed, h⟩ := run_sound adapter calls
  refine ⟨⟨processed, h.bodies, h.messages⟩, fun chunk hok => ?_, h.exists_ok⟩
  intro done
  obtain ⟨taken, hnext, hall, -⟩ := h.push chunk
  have hdone : done = ((start adapter).run calls).step (.push chunk) := run_concat ..
  rw [run_next_message, hdone, hnext.messages, hnext.bodies, hall hok, List.append_nil]

end Reception

end LatentMesh.Meshtastic
