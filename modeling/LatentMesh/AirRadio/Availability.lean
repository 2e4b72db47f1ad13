import LatentMesh.AirRadio.Ingest
import LatentMesh.Lib.Transition

/-!
# Availability of the receiver

When a receiver that has taken in any frames delivers a new message of one frame: see
`AirReceiver.delivers_single_iff`. The receiver never evicts a context, so contexts of messages that
lost a frame fill the table for good, as in `AirReceiver.stale_contexts_refuse`.
-/

namespace LatentMesh.AirRadio

open LatentMesh.AirCore LatentMesh.Lib

namespace AirReceiver

/-- One ingested frame. -/
inductive Ingests : AirReceiver → AirReceiver → Prop where
  | frame (receiver : AirReceiver) (frame : SparseRadioFrame) (verifier : Option EnvelopeVerifier) :
      Ingests receiver (receiver.ingestFrameInner frame verifier).1

/-- The configuration stays, and the reassembly table keeps its bounds. -/
structure WellFormed (config : ReceiverConfig) (receiver : AirReceiver) : Prop where
  config_eq : receiver.config = config
  bounded : receiver.reassembler.Bounded config.reassembly

variable {config : ReceiverConfig} {receiver next : AirReceiver} {frame : SparseRadioFrame}
  {verifier : Option EnvelopeVerifier}

/-- A new receiver is well formed. -/
theorem WellFormed.new (h : AirReceiver.new config = .ok receiver) :
    WellFormed config receiver := by
  simp only [AirReceiver.new, Lib.bind_eq_ok_iff, Lib.guard_eq_ok_iff, Except.ok.injEq] at h
  obtain ⟨u, -, -, codec, -, reassembler, hreassembler, rfl⟩ := h
  exact ⟨rfl, Reassembler.new_bounded hreassembler⟩

/-- A commit keeps a receiver well formed. -/
theorem WellFormed.commit_replay (h : WellFormed config receiver) {streamId sequence : UInt16}
    {result : Result Unit} (hcommit : receiver.commitReplay streamId sequence = (next, result)) :
    WellFormed config next := by
  obtain ⟨hreassembler, hconfig, -⟩ := commit_replay_cases hcommit
  exact ⟨hconfig.trans h.config_eq, by rw [hreassembler]; exact h.bounded⟩

/-- An ingested frame keeps a receiver well formed. -/
theorem WellFormed.ingest (h : WellFormed config receiver)
    {result : Result (Option ReceivedMessage)}
    (hingest : receiver.ingestFrameInner frame verifier = (next, result)) :
    WellFormed config next := by
  dsimp only [ingestFrameInner] at hingest
  split at hingest
  · cases hingest
    exact ⟨h.config_eq, h.bounded⟩
  · split at hingest
    · cases hingest
      exact ⟨h.config_eq, h.bounded⟩
    · split at hingest
      · cases hingest
        exact ⟨h.config_eq, h.bounded.clear _ _⟩
      · split at hingest
        · cases hingest
          exact ⟨h.config_eq, h.bounded⟩
        · cases hpush : receiver.reassembler.push frame with
          | mk reassembler complete =>
              have hbounded := h.bounded.push hpush
              rw [hpush] at hingest
              dsimp only at hingest
              split at hingest
              · cases hingest
                exact ⟨h.config_eq, hbounded⟩
              · cases hingest
                exact ⟨h.config_eq, hbounded⟩
              · split at hingest
                · cases hingest
                  exact ⟨h.config_eq, hbounded⟩
                · have hkept : WellFormed config
                      { receiver with state := .listening, reassembler } := ⟨h.config_eq, hbounded⟩
                  split at hingest
                  · rename_i hcommit
                    cases hingest
                    exact hkept.commit_replay hcommit
                  · rename_i hcommit
                    cases hingest
                    exact ⟨(hkept.commit_replay hcommit).config_eq,
                      (hkept.commit_replay hcommit).bounded⟩

/-- What the receiver asks of a new message of one frame: the frame is of its link, a context is
free, the message is not too long, and a delta is bound to its envelope. -/
structure Receivable (receiver : AirReceiver) (frame : SparseRadioFrame) : Prop where
  profile : frame.profile = receiver.config.link.profile
  fec : receiver.config.link.flags.contains FrameFlags.fec = frame.flags.contains FrameFlags.fec
  free : receiver.reassembler.contexts.length < receiver.config.reassembly.maxContexts
  bytes : frame.payload.length ≤ receiver.config.reassembly.maxMessageBytes
  binding : frame.semanticClass = .stateDelta →
    ReceivedMessage.validateSemanticBinding (singleMessage frame) = .ok ()

/-- What is checked of an unsigned message. -/
theorem validate_admission_unsigned {message : ReceivedMessage}
    (hunsigned : message.flags.contains FrameFlags.signedEnvelope = false) :
    ReceivedMessage.validateAdmission message verifier =
      if message.semanticClass = .stateDelta then ReceivedMessage.validateSemanticBinding message
      else .ok () := by
  unfold ReceivedMessage.validateAdmission ReceivedMessage.signed
  rw [hunsigned]
  rfl

/-- The commit of a sequence number that the window of its stream accepts. -/
theorem commit_replay_accept {streamId sequence : UInt16} {window : ReplayWindow}
    (hwindow : windowOf receiver.replay streamId = some window)
    (haccept : window.classify sequence = .accept) :
    ∃ replay, receiver.commitReplay streamId sequence = ({ receiver with replay }, .ok ()) := by
  obtain ⟨changed, hcommit⟩ := ReplayWindow.commit_of_accept haccept
  refine ⟨setWindow streamId changed receiver.replay, ?_⟩
  rw [commitReplay, hwindow]
  simp only [hcommit]

/-- A receiver that has taken in any frames delivers a new unsigned message of one frame, on a
stream that it tracks, exactly when the frame is receivable. -/
theorem delivers_single_iff {start : AirReceiver} {window : ReplayWindow}
    (hstart : AirReceiver.new config = .ok start) (hrun : Reachable Ingests start receiver)
    (hvalid : frame.Valid) (hcount : frame.fragmentCount = 1)
    (hunsigned : frame.flags.contains FrameFlags.signedEnvelope = false)
    (hwindow : windowOf receiver.replay frame.streamId = some window)
    (haccept : window.classify frame.sequence = .accept)
    (hfresh : receiver.reassembler.hasInFlight frame.streamId frame.sequence = false) :
    (receiver.ingestFrameInner frame verifier).2 = .ok (some (singleMessage frame)) ↔
      Receivable receiver frame := by
  have hformed : WellFormed config receiver :=
    hrun.invariant (WellFormed config) (.new hstart) fun state next ih hstep => by
      cases hstep
      exact ih.ingest rfl
  have hlength := hformed.bounded.contexts
  have hconfig := hformed.bounded.config_eq
  rw [← hformed.config_eq] at hlength hconfig
  have hreplay : checkReplay { receiver with state := .listening } frame = .ok () := by
    simp only [checkReplay, hwindow, haccept]
  have hsigned :
      ¬ (frame.flags.contains FrameFlags.signedEnvelope = true ∧ verifier.isNone = true) :=
    fun hboth => by
      rw [hunsigned] at hboth
      cases hboth.1
  dsimp only [ingestFrameInner]
  by_cases hprofile : frame.profile = receiver.config.link.profile
  swap
  · rw [if_pos hprofile]
    exact iff_of_false (fun h => by cases h) fun h => hprofile h.profile
  by_cases hfec : receiver.config.link.flags.contains FrameFlags.fec =
      frame.flags.contains FrameFlags.fec
  swap
  · rw [if_neg (not_not.mpr hprofile), if_pos hfec]
    exact iff_of_false (fun h => by cases h) fun h => hfec h.fec
  rw [if_neg (not_not.mpr hprofile), if_neg (not_not.mpr hfec), if_neg hsigned, hreplay]
  dsimp only
  have hfragments : receiver.reassembler.config.maxFragments ≠ 0 := by
    rw [hconfig, hformed.config_eq]
    exact hformed.bounded.fragments
  rcases Reassembler.push_single hvalid hcount hfragments hfresh with
    ⟨hfree, hbytes, hpush⟩ | ⟨hno, error, hpush⟩
  · rw [hpush]
    dsimp only
    rw [validate_admission_unsigned hunsigned]
    rw [hconfig] at hfree hbytes
    have hreceivable : (frame.semanticClass = .stateDelta →
        ReceivedMessage.validateSemanticBinding (singleMessage frame) = .ok ()) →
        Receivable receiver frame := fun hbinding =>
      ⟨hprofile, hfec, Nat.lt_of_le_of_ne hlength hfree, hbytes, hbinding⟩
    obtain ⟨replay, hcommit⟩ : ∃ replay,
        commitReplay { receiver with state := .listening } (singleMessage frame).streamId
          (singleMessage frame).sequence =
            ({ receiver with state := .listening, replay }, .ok ()) :=
      commit_replay_accept hwindow haccept
    by_cases hclass : (singleMessage frame).semanticClass = .stateDelta
    · rw [if_pos hclass]
      cases hbinding : ReceivedMessage.validateSemanticBinding (singleMessage frame) with
      | error error =>
          refine iff_of_false (fun h => by cases h) fun h => ?_
          rw [h.binding hclass] at hbinding
          cases hbinding
      | ok u =>
          dsimp only
          rw [hcommit]
          exact iff_of_true rfl (hreceivable fun _ => hbinding)
    · rw [if_neg hclass]
      dsimp only
      rw [hcommit]
      exact iff_of_true rfl (hreceivable fun h => absurd h hclass)
  · cases hresult : receiver.reassembler.push frame with
    | mk reassembler complete =>
        rw [hresult] at hpush
        cases hpush
        refine iff_of_false (fun h => by cases h) fun h => hno ?_
        rw [hconfig]
        exact ⟨Nat.ne_of_lt h.free, h.bytes⟩

/-- Ingest frames in turn, without a verifier. -/
def ingestAll (receiver : AirReceiver) (frames : List SparseRadioFrame) : AirReceiver :=
  frames.foldl (fun receiver frame => (receiver.ingestFrameInner frame none).1) receiver

/-- A run over frames reaches what it ends with. -/
theorem reachable_ingest_all (frames : List SparseRadioFrame) {start : AirReceiver}
    (h : Reachable Ingests start receiver) :
    Reachable Ingests start (receiver.ingestAll frames) := by
  induction frames generalizing receiver with
  | nil => exact h
  | cons frame frames ih => exact ih (h.step (.frame receiver frame none))

/-- The first frame of a message on stream 1. -/
def firstFrame (sequence : UInt16) (count : UInt8) : SparseRadioFrame where
  profile := .wifi
  flags := FrameFlags.none
  streamId := 1
  sequence := sequence
  fragmentIndex := 0
  fragmentCount := count
  semanticClass := .telemetry
  priority := 0
  stateTag := 0
  payload := [7]

/-- The theorem at a frame of a second message. -/
theorem delivers_single_iff_second :
    ∃ start, AirReceiver.new (.forLink (.forProfile .wifi)) = .ok start ∧
      ((start.ingestAll [firstFrame 0 1]).ingestFrameInner (firstFrame 1 1) none).2 =
        .ok (some (singleMessage (firstFrame 1 1))) := by
  obtain ⟨start, hstart⟩ :
      ∃ start, AirReceiver.new (.forLink (.forProfile .wifi)) = .ok start := ⟨_, rfl⟩
  have hwindow : windowOf (start.ingestAll [firstFrame 0 1]).replay 1 = some ⟨true, 0, 1⟩ := by
    cases hstart
    rfl
  have hfresh : (start.ingestAll [firstFrame 0 1]).reassembler.hasInFlight 1 1 = false := by
    cases hstart
    rfl
  have hreceivable : Receivable (start.ingestAll [firstFrame 0 1]) (firstFrame 1 1) := by
    cases hstart
    exact ⟨rfl, rfl, by decide, by decide, fun hdelta => by cases hdelta⟩
  exact ⟨start, hstart, (delivers_single_iff hstart (reachable_ingest_all _ .start)
    (by constructor <;> decide) rfl rfl hwindow rfl hfresh).mpr hreceivable⟩

/-- Four messages that lost a fragment fill the table, and a new message of one frame is refused. -/
theorem stale_contexts_refuse :
    ∃ start window, AirReceiver.new (.forLink (.forProfile .wifi)) = .ok start ∧
      let receiver := start.ingestAll
        [firstFrame 0 1, firstFrame 1 2, firstFrame 2 2, firstFrame 3 2, firstFrame 4 2]
      Reachable Ingests start receiver ∧ (firstFrame 5 1).Valid ∧
        windowOf receiver.replay 1 = some window ∧ window.classify 5 = .accept ∧
        receiver.reassembler.hasInFlight 1 5 = false ∧
        (receiver.ingestFrameInner (firstFrame 5 1) none).2 = .error .reassemblyFull := by
  obtain ⟨start, hstart⟩ :
      ∃ start, AirReceiver.new (.forLink (.forProfile .wifi)) = .ok start := ⟨_, rfl⟩
  cases hstart
  exact ⟨_, ⟨true, 0, 1⟩, rfl, reachable_ingest_all _ .start, by constructor <;> decide,
    rfl, rfl, rfl, rfl⟩

end AirReceiver

end LatentMesh.AirRadio
