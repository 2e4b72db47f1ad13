import Mathlib.Data.List.Induction
import LatentMesh.AirCore.Contexts
import LatentMesh.AirCore.Wire
import LatentMesh.Lib.Transition
import LatentMesh.Meshtastic.Adapter

/-!
# Messages that are handed over again

The adapter has no replay window, and the reassembler forgets a message when it is complete. So a
message is handed over again exactly when its last missing fragment arrives again
(`Listener.delivers_once_iff`), and not while some fragment of it has not arrived since it was
handed over (`Listener.delivers_once_of_incomplete`).
-/

namespace LatentMesh.Meshtastic

open LatentMesh.AirCore LatentMesh.Lib

/-- What the caller of a receiving adapter does. -/
inductive AdapterCall where
  | ingestFromRadio (body : List UInt8)
  | ingestAirPayload (payload : List UInt8)

/-- The payload of a body for this application. -/
def payloadOfBody (body : List UInt8) : Option (List UInt8) :=
  match decodeFromRadio body with
  | .ok (some received) =>
      if received.portnum ≠ privateAppPortnum then none else some received.payload
  | _ => none

namespace AdapterCall

/-- The payload that a call hands over. -/
def payload : AdapterCall → Option (List UInt8)
  | .ingestFromRadio body => payloadOfBody body
  | .ingestAirPayload payload => some payload

/-- The frame that a call gives to the reassembler. -/
def frame (self : AdapterCall) : Option SparseRadioFrame :=
  self.payload.bind fun payload => (SparseRadioFrame.decode payload).toOption

end AdapterCall

namespace MeshtasticAdapter

/-- A call on the adapter. -/
def call (self : MeshtasticAdapter) :
    AdapterCall → MeshtasticAdapter × Result (Option ReassembledMessage)
  | .ingestFromRadio body => self.ingestFromRadio body
  | .ingestAirPayload payload => self.ingestAirPayload payload

variable {self : MeshtasticAdapter} {input : AdapterCall}

/-- A call with a payload ingests it. -/
theorem call_of_payload {payload : List UInt8} (h : input.payload = some payload) :
    self.call input = self.ingestAirPayload payload := by
  cases input with
  | ingestAirPayload other =>
      cases h
      rfl
  | ingestFromRadio body =>
      show self.ingestFromRadio body = _
      replace h : payloadOfBody body = some payload := h
      unfold payloadOfBody at h
      unfold ingestFromRadio
      split at h
      · rename_i received hdecoded
        rw [hdecoded]
        dsimp only
        split at h
        · cases h
        · rename_i hport
          cases h
          rw [if_neg hport]
      · cases h

/-- A call without a payload hands nothing over and changes nothing. -/
theorem call_of_no_payload (h : input.payload = none) :
    (self.call input).1 = self ∧ ∀ message, (self.call input).2 ≠ .ok (some message) := by
  cases input with
  | ingestAirPayload payload => cases h
  | ingestFromRadio body =>
      replace h : payloadOfBody body = none := h
      have hanswer : (∃ error, self.ingestFromRadio body = (self, .error error)) ∨
          self.ingestFromRadio body = (self, .ok none) := by
        unfold payloadOfBody at h
        unfold ingestFromRadio
        cases hdecoded : decodeFromRadio body with
        | error error => exact Or.inl ⟨error, rfl⟩
        | ok received =>
            rw [hdecoded] at h
            cases received with
            | none => exact Or.inr rfl
            | some received =>
                dsimp only at h ⊢
                split at h
                · rename_i hport
                  exact Or.inr (if_pos hport)
                · cases h
      show (self.ingestFromRadio body).1 = self ∧ ∀ message, (self.ingestFromRadio body).2 ≠ _
      rcases hanswer with ⟨error, heq⟩ | heq
      · rw [heq]
        exact ⟨rfl, fun message hok => by cases hok⟩
      · rw [heq]
        exact ⟨rfl, fun message hok => by cases hok⟩

/-- A call with a frame pushes it. -/
theorem call_of_frame {frame : SparseRadioFrame} (h : input.frame = some frame) :
    self.call input = ({ self with reassembler := (self.reassembler.push frame).1 },
      fromAir (self.reassembler.push frame).2) := by
  obtain ⟨payload, hpayload, hdecoded⟩ := Option.bind_eq_some_iff.mp h
  rw [call_of_payload hpayload]
  unfold ingestAirPayload
  cases hdecode : SparseRadioFrame.decode payload with
  | error error =>
      rw [hdecode] at hdecoded
      cases hdecoded
  | ok other =>
      rw [hdecode] at hdecoded
      cases hdecoded
      rfl

/-- A call without a frame hands nothing over and changes nothing. -/
theorem call_of_no_frame (h : input.frame = none) :
    (self.call input).1 = self ∧ ∀ message, (self.call input).2 ≠ .ok (some message) := by
  cases hpayload : input.payload with
  | none => exact call_of_no_payload hpayload
  | some payload =>
      rw [call_of_payload hpayload]
      unfold AdapterCall.frame at h
      rw [hpayload] at h
      unfold ingestAirPayload
      cases hdecode : SparseRadioFrame.decode payload with
      | error error => exact ⟨rfl, fun message hok => by cases hok⟩
      | ok frame =>
          rw [Option.bind_some, hdecode] at h
          cases h

end MeshtasticAdapter

/-! ## Runs -/

/-- An adapter, the messages that it has handed over, and the frames that have arrived since their
message was handed over last. -/
structure Listener where
  adapter : MeshtasticAdapter
  delivered : List ReassembledMessage
  pending : List SparseRadioFrame

namespace Listener

/-- An input, with the message it delivers. -/
def step (self : Listener) (input : AdapterCall) : Listener :=
  match self.adapter.call input with
  | (adapter, .ok (some message)) =>
      { adapter
        delivered := self.delivered ++ [message]
        pending := self.pending.filter fun frame => frame.key ≠ message.toFragmentMeta.key }
  | (adapter, _) => { self with adapter, pending := self.pending ++ input.frame.toList }

/-- A new adapter that gets a list of calls. -/
def run (adapter : MeshtasticAdapter) (inputs : List AdapterCall) : Listener :=
  inputs.foldl step ⟨adapter, [], []⟩

/-- The streams and sequences of the messages that have been handed over. -/
def deliveredKeys (self : Listener) : List (UInt16 × UInt16) :=
  self.delivered.map fun message => message.toFragmentMeta.key

/-- One input more. -/
theorem run_concat (adapter : MeshtasticAdapter) (inputs : List AdapterCall)
    (input : AdapterCall) : run adapter (inputs ++ [input]) = (run adapter inputs).step input := by
  rw [run, List.foldl_append]
  rfl

variable {self : Listener} {input : AdapterCall}

/-- What a call does: it hands over the message of the frame that completes it, or nothing. -/
theorem step_cases (hdistinct : self.adapter.reassembler.DistinctKeys) (input : AdapterCall) :
    (∃ frame message, input.frame = some frame ∧ self.adapter.reassembler.LastMissing frame ∧
        message.toFragmentMeta.key = frame.key ∧
        (self.step input).adapter.reassembler = (self.adapter.reassembler.push frame).1 ∧
        (self.step input).adapter.reassembler.contextOf frame.key = none ∧
        (self.step input).delivered = self.delivered ++ [message] ∧
        (self.step input).pending = self.pending.filter fun other => other.key ≠ frame.key) ∨
      (∃ frame, input.frame = some frame ∧ ¬ self.adapter.reassembler.LastMissing frame ∧
        (self.step input).adapter.reassembler = (self.adapter.reassembler.push frame).1 ∧
        (self.step input).delivered = self.delivered ∧
        (self.step input).pending = self.pending ++ [frame]) ∨
      (input.frame = none ∧ self.step input = self) := by
  cases hframe : input.frame with
  | none =>
      -- the reassembler sees nothing of the call
      obtain ⟨hsame, hnothing⟩ := @MeshtasticAdapter.call_of_no_frame self.adapter input hframe
      refine Or.inr (Or.inr ⟨rfl, ?_⟩)
      cases hcall : self.adapter.call input with
      | mk adapter answer =>
          rw [hcall] at hsame hnothing
          dsimp only at hsame
          unfold step
          rw [hcall, hframe, hsame]
          split
          · rename_i message heq
            cases heq
            exact absurd rfl (hnothing message)
          · rename_i heq
            cases heq
            rw [Option.toList_none, List.append_nil]
  | some frame =>
      have hcall := @MeshtasticAdapter.call_of_frame self.adapter input frame hframe
      by_cases hlast : self.adapter.reassembler.LastMissing frame
      · obtain ⟨next, message, hpush, hkey, hgone⟩ := hlast.push hdistinct
        rw [hpush] at hcall
        have hstep : self.step input =
            { adapter := { self.adapter with reassembler := next }
              delivered := self.delivered ++ [message]
              pending := self.pending.filter fun frame =>
                frame.key ≠ message.toFragmentMeta.key } := by
          rw [step, hcall]
          rfl
        refine Or.inl ⟨frame, message, rfl, hlast, hkey, ?_⟩
        rw [hstep, hpush, hkey]
        exact ⟨rfl, hgone, rfl, rfl⟩
      · refine Or.inr (Or.inl ⟨frame, rfl, hlast, ?_⟩)
        -- any other fragment is refused, repeated or stored
        have hnothing := fun message hok =>
          hlast ((Reassembler.push_returns_iff hdistinct).mp ⟨message, hok⟩)
        unfold step
        rw [hcall, hframe]
        cases hresult : (self.adapter.reassembler.push frame).2 with
        | error error => exact ⟨rfl, rfl, rfl⟩
        | ok answer =>
            cases answer with
            | none => exact ⟨rfl, rfl, rfl⟩
            | some message => exact absurd hresult (hnothing message)

/-- The invariant: the contexts are filled by frames that have arrived since their message was
handed over last. -/
structure Sound (listener : Listener) : Prop where
  distinct : listener.adapter.reassembler.DistinctKeys
  filled : ∀ context ∈ listener.adapter.reassembler.contexts, ∀ index,
    context.parts.getD index none ≠ none →
      ∃ frame ∈ listener.pending, frame.key = context.key ∧ frame.fragmentIndex.toNat = index

/-- An input keeps the listener sound. -/
theorem Sound.step (h : self.Sound) (input : AdapterCall) : (self.step input).Sound := by
  rcases step_cases h.distinct input with
    ⟨frame, message, -, -, -, htable, hgone, -, hpending⟩ | ⟨frame, -, -, htable, -, hpending⟩ |
    ⟨-, hsame⟩
  · rw [htable] at hgone
    refine ⟨htable ▸ Reassembler.push_distinct h.distinct rfl, ?_⟩
    intro context hcontext index hpart
    rw [htable] at hcontext
    -- the context of the message is gone, so only frames of other messages are needed
    have hother : context.key ≠ frame.key := Keyed.find_eq_none_iff.mp hgone context hcontext
    rcases Reassembler.push_parts rfl context hcontext index hpart with
      ⟨old, hold, hkey, hfilled⟩ | ⟨hkey, -⟩
    · obtain ⟨first, hfirst, hsame, hindex⟩ := h.filled old hold index hfilled
      refine ⟨first, ?_, hsame.trans hkey, hindex⟩
      rw [hpending, List.mem_filter]
      exact ⟨hfirst, by simpa [hsame, hkey] using hother⟩
    · exact absurd hkey hother
  · refine ⟨htable ▸ Reassembler.push_distinct h.distinct rfl, ?_⟩
    intro context hcontext index hpart
    rw [htable] at hcontext
    rw [hpending]
    rcases Reassembler.push_parts rfl context hcontext index hpart with
      ⟨old, hold, hkey, hfilled⟩ | ⟨hkey, hindex⟩
    · obtain ⟨first, hfirst, hsame, hindex⟩ := h.filled old hold index hfilled
      exact ⟨first, List.mem_append_left _ hfirst, hsame.trans hkey, hindex⟩
    · exact ⟨frame, by simp, hkey.symm, hindex.symm⟩
  · rw [hsame]
    exact h

variable {config : ReassemblerConfig} {adapter : MeshtasticAdapter}

/-- Every run of a new adapter is sound. -/
theorem run_sound (hnew : MeshtasticAdapter.withReassemblerConfig config = .ok adapter)
    (inputs : List AdapterCall) : (run adapter inputs).Sound := by
  induction inputs using List.reverseRecOn with
  | nil =>
      obtain ⟨table, htable, hadapter⟩ := Lib.bind_eq_ok_iff.mp hnew
      cases hadapter
      replace htable := from_air_eq_ok_iff.mp htable
      refine ⟨Reassembler.new_distinct htable, fun context hcontext => ?_⟩
      obtain ⟨-, heq⟩ := Lib.guard_eq_ok_iff.mp htable
      cases heq
      exact absurd hcontext List.not_mem_nil
  | append_singleton inputs input ih =>
      rw [run_concat]
      exact ih.step input

/-- The call carries the last missing fragment of a message that has been handed over. -/
def Repeats (self : Listener) (input : AdapterCall) : Prop :=
  ∃ frame, input.frame = some frame ∧ frame.key ∈ self.deliveredKeys ∧
    self.adapter.reassembler.LastMissing frame

/-- An input repeats when its frame completes a message that was delivered. -/
theorem repeats_iff_of_frame {frame : SparseRadioFrame} (h : input.frame = some frame) :
    self.Repeats input ↔
      frame.key ∈ self.deliveredKeys ∧ self.adapter.reassembler.LastMissing frame := by
  refine ⟨?_, fun hmem => ⟨frame, h, hmem⟩⟩
  rintro ⟨other, hother, hmem⟩
  rw [h] at hother
  cases hother
  exact hmem

/-- An input delivers a message a second time when it repeats. -/
theorem step_nodup_iff (h : self.Sound) :
    (self.step input).deliveredKeys.Nodup ↔ self.deliveredKeys.Nodup ∧ ¬ self.Repeats input := by
  rcases step_cases h.distinct input with
    ⟨frame, message, hframe, hlast, hkey, -, -, hdelivered, -⟩ |
    ⟨frame, hframe, hnot, -, hdelivered, -⟩ | ⟨hnone, hsame⟩
  · rw [repeats_iff_of_frame hframe, and_iff_left hlast, deliveredKeys, hdelivered,
      List.map_append, List.map_singleton, hkey, List.nodup_append]
    refine and_congr_right fun _ => ?_
    constructor
    · rintro ⟨-, hdisjoint⟩ hmem
      exact hdisjoint _ hmem _ (List.mem_singleton_self _) rfl
    · rintro hnew
      refine ⟨List.nodup_singleton _, fun old hold new hmem heq => hnew ?_⟩
      rw [← List.mem_singleton.mp hmem, ← heq]
      exact hold
  · have hrepeats : ¬ self.Repeats input := fun hrepeats =>
      hnot ((repeats_iff_of_frame hframe).mp hrepeats).2
    rw [deliveredKeys, hdelivered]
    exact (and_iff_left hrepeats).symm
  · have hrepeats : ¬ self.Repeats input := by
      rintro ⟨other, hother, -⟩
      rw [hnone] at hother
      cases hother
    rw [hsame]
    exact (and_iff_left hrepeats).symm

/-- In a run every message is handed over at most once exactly when the last missing fragment of a
message that has been handed over never arrives. -/
theorem delivers_once_iff
    (hnew : MeshtasticAdapter.withReassemblerConfig config = .ok adapter)
    (inputs : List AdapterCall) :
    (run adapter inputs).deliveredKeys.Nodup ↔
      ∀ before input after, inputs = before ++ input :: after →
        ¬ (run adapter before).Repeats input := by
  induction inputs using List.reverseRecOn with
  | nil => exact iff_of_true List.nodup_nil forall_split_nil
  | append_singleton inputs last ih =>
      rw [run_concat, step_nodup_iff (run_sound hnew inputs), ih, forall_split_concat]

/-- A fragment of a message of two, as the payload of a packet. -/
def halfFrame (index : UInt8) : SparseRadioFrame :=
  ⟨.meshtastic, FrameFlags.none, 2, 11, index, 2, .stateDelta, 0, 0x1234, [3]⟩

/-- One of two packets of a message. -/
def halfPacket (index : UInt8) : AdapterCall := .ingestAirPayload (halfFrame index).wire

/-- After the message has been handed over, its second fragment arrives again. The first one is
missing then, so nothing is handed over. -/
theorem delivers_once_late :
    (run ⟨⟨.default, []⟩, broadcastAddr⟩
      [halfPacket 0, halfPacket 1, halfPacket 1]).deliveredKeys.Nodup ∧
      (2, 11) ∈ (run ⟨⟨.default, []⟩, broadcastAddr⟩ [halfPacket 0, halfPacket 1]).deliveredKeys ∧
      (halfPacket 1).frame = some (halfFrame 1) := by
  have hframe : (halfPacket 1).frame = some (halfFrame 1) := by
    decide +kernel
  have hempty : (run ⟨⟨.default, []⟩, broadcastAddr⟩ [halfPacket 0]).deliveredKeys = [] := by
    decide +kernel
  have hgone : ((run ⟨⟨.default, []⟩, broadcastAddr⟩
      [halfPacket 0, halfPacket 1]).adapter.reassembler.baseOf (halfFrame 1)).parts.getD 0 none =
      none := by
    decide +kernel
  refine ⟨(@delivers_once_iff .default _ rfl _).mpr ?_, by decide +kernel, hframe⟩
  refine forall_split_cons.mpr ⟨?_, forall_split_cons.mpr ⟨?_, forall_split_cons.mpr
    ⟨?_, forall_split_nil⟩⟩⟩
  · rintro ⟨frame, -, hmem, -⟩
    cases hmem
  · rintro ⟨frame, -, hmem, -⟩
    rw [hempty] at hmem
    cases hmem
  · rw [repeats_iff_of_frame hframe]
    rintro ⟨-, hlast⟩
    exact hlast.others 0 (by decide) (by decide) hgone

/-- A single fragment in a packet. -/
def sampleFrame : SparseRadioFrame :=
  ⟨.meshtastic, FrameFlags.none, 2, 10, 0, 1, .stateDelta, 0, 0x1234, [3]⟩

/-- A `FromRadio` packet that carries it. -/
def samplePacket : AdapterCall :=
  .ingestFromRadio (encodeBytesField fromRadioFieldPacket
    (encodeMeshPacket broadcastAddr privateAppPortnum sampleFrame.wire))

/-- A packet that arrives twice is handed over twice. -/
theorem delivers_twice :
    ∃ adapter, MeshtasticAdapter.new = .ok adapter ∧
      ¬ (run adapter [samplePacket, samplePacket]).deliveredKeys.Nodup := by
  have hvalid : sampleFrame.Valid := ⟨by decide, by decide, by decide, by decide, by decide⟩
  have hframe : samplePacket.frame = some sampleFrame := by
    have hwire : sampleFrame.wire.length = 17 := by decide
    have hpacket := @encode_mesh_packet_length broadcastAddr sampleFrame.wire (by omega)
    have hbody := @encode_bytes_field_length fromRadioFieldPacket
      (encodeMeshPacket broadcastAddr privateAppPortnum sampleFrame.wire) (by decide) (by omega)
    have hdecoded := @decode_from_radio_encode broadcastAddr privateAppPortnum sampleFrame.wire
      (by omega)
    rw [AdapterCall.frame]
    show (payloadOfBody _).bind _ = _
    rw [payloadOfBody, hdecoded]
    dsimp only
    rw [if_neg (not_not.mpr rfl), Option.bind_some, SparseRadioFrame.decode_wire hvalid]
    rfl
  have hstep : ∀ delivered pending,
      step ⟨⟨⟨.default, []⟩, broadcastAddr⟩, delivered, pending⟩ samplePacket =
        ⟨⟨⟨.default, []⟩, broadcastAddr⟩, delivered ++ [singleMessage sampleFrame],
          pending.filter fun frame => frame.key ≠ (2, 10)⟩ := by
    intro delivered pending
    rw [step, MeshtasticAdapter.call_of_frame hframe]
    rfl
  refine ⟨⟨⟨.default, []⟩, broadcastAddr⟩, rfl, fun hnodup => ?_⟩
  rw [run, List.foldl_cons, List.foldl_cons, hstep, hstep] at hnodup
  revert hnodup
  decide

/-- A message is handed over at most once in a run where, once it has been handed over, some
fragment of it does not arrive any more. -/
theorem delivers_once_of_incomplete
    (hnew : MeshtasticAdapter.withReassemblerConfig config = .ok adapter)
    {inputs : List AdapterCall}
    (h : ∀ before input after, inputs = before ++ input :: after →
      ∀ frame, input.frame = some frame → frame.key ∈ (run adapter before).deliveredKeys →
        ∃ index < frame.fragmentCount.toNat, index ≠ frame.fragmentIndex.toNat ∧
          ∀ other ∈ (run adapter before).pending, other.key = frame.key →
            other.fragmentIndex.toNat ≠ index) :
    (run adapter inputs).deliveredKeys.Nodup := by
  induction inputs using List.reverseRecOn with
  | nil => exact List.nodup_nil
  | append_singleton inputs last ih =>
      have hsound := run_sound hnew inputs
      obtain ⟨hbefore, hstep⟩ := forall_split_concat.mp h
      rw [run_concat, step_nodup_iff hsound]
      refine ⟨ih hbefore, ?_⟩
      rintro ⟨frame, hframe, hdelivered, hlast⟩
      obtain ⟨index, hindex, hother, habsent⟩ := hstep frame hframe hdelivered
      have hpart := hlast.others index hindex hother
      -- the other parts are filled, but no frame of that index is pending
      unfold Reassembler.baseOf at hpart
      cases hcontext : (run adapter inputs).adapter.reassembler.contextOf frame.key with
      | some context =>
          rw [hcontext, Option.getD_some] at hpart
          obtain ⟨hmem, hkey⟩ := Keyed.mem_of_find hcontext
          obtain ⟨first, hfirst, hsame, hfilled⟩ := hsound.filled context hmem index hpart
          exact habsent first hfirst (hsame.trans hkey) hfilled
      | none =>
          rw [hcontext, Option.getD_none] at hpart
          exact hpart (Context.of_frame_part frame index)

end Listener

end LatentMesh.Meshtastic
