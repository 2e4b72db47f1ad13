import LatentMesh.AirCore.Reassembly
import LatentMesh.AirRadio.Receiver

/-!
# What one frame does to the receiver

The windows of the streams after a commit (`AirReceiver.commit_replay_cases`), and the receiver
after a frame (`AirReceiver.ingest_cases`): it delivers nothing and keeps every window, or it
delivers the message that the frame completes and commits its sequence number.
-/

namespace LatentMesh.AirRadio

open LatentMesh.AirCore

namespace AirReceiver

/-! ## Windows -/

/-- The window of a stream is that of its first entry. -/
theorem window_of_cons (entry : StreamReplay) (rest : List StreamReplay) (streamId : UInt16) :
    windowOf (entry :: rest) streamId =
      if entry.streamId = streamId then some entry.window else windowOf rest streamId := by
  unfold windowOf
  rw [List.find?_cons]
  by_cases h : entry.streamId = streamId
  · simp [h]
  · rw [if_neg h, beq_eq_false_iff_ne.mpr h]

/-- A changed window is found. -/
theorem window_of_set_window_self {replay : List StreamReplay} {streamId : UInt16}
    {window : ReplayWindow} (h : windowOf replay streamId = some window)
    (changed : ReplayWindow) :
    windowOf (setWindow streamId changed replay) streamId = some changed := by
  induction replay with
  | nil => cases h
  | cons entry rest ih =>
      rw [window_of_cons] at h
      rw [setWindow]
      split
      · rename_i heq
        rw [window_of_cons, if_pos heq]
      · rename_i hne
        rw [if_neg hne] at h
        rw [window_of_cons, if_neg hne, ih h]

/-- A changed window leaves those of other streams as they are. -/
theorem window_of_set_window_other {streamId other : UInt16} (hne : other ≠ streamId)
    (window : ReplayWindow) (replay : List StreamReplay) :
    windowOf (setWindow streamId window replay) other = windowOf replay other := by
  induction replay with
  | nil => rfl
  | cons entry rest ih =>
      rw [setWindow]
      split
      · rename_i heq
        have hother : ¬ entry.streamId = other := fun h => hne (h.symm.trans heq)
        rw [window_of_cons, window_of_cons, if_neg hother, if_neg hother]
      · rw [window_of_cons, window_of_cons, ih]

/-- A new entry is found when its stream had none. -/
theorem window_of_append {replay : List StreamReplay} {streamId : UInt16}
    (h : windowOf replay streamId = none) (window : ReplayWindow) (other : UInt16) :
    windowOf (replay ++ [⟨streamId, window⟩]) other =
      if streamId = other then some window else windowOf replay other := by
  induction replay with
  | nil =>
      rw [List.nil_append, window_of_cons]
  | cons entry rest ih =>
      rw [window_of_cons] at h
      split at h
      · cases h
      · rename_i hne
        rw [List.cons_append, window_of_cons, window_of_cons, ih h]
        by_cases hother : entry.streamId = other
        · rw [if_pos hother, if_pos hother, if_neg fun heq => hne (hother.trans heq.symm)]
        · rw [if_neg hother, if_neg hother]

variable {self next : AirReceiver} {frame : SparseRadioFrame} {verifier : Option EnvelopeVerifier}
  {streamId sequence : UInt16}

/-- The windows after an accepted commit. -/
structure Committed (before after : List StreamReplay) (streamId sequence : UInt16) : Prop where
  commit : ∃ window, windowOf after streamId = some window ∧
    ((windowOf before streamId).getD ReplayWindow.new).commit sequence = (window, .ok ())
  other : ∀ other, other ≠ streamId → windowOf after other = windowOf before other

/-- A commit changes only the window of its stream, and a refused one changes no window. -/
theorem commit_replay_cases {result : Result Unit}
    (h : self.commitReplay streamId sequence = (next, result)) :
    next.reassembler = self.reassembler ∧ next.config = self.config ∧
      ((result = .ok () ∧ Committed self.replay next.replay streamId sequence) ∨
        ((∃ error, result = .error error) ∧
          ∀ other, windowOf next.replay other = windowOf self.replay other)) := by
  unfold commitReplay at h
  split at h
  · rename_i window hwindow
    cases hcommit : window.commit sequence with
    | mk changed outcome =>
        rw [hcommit] at h
        cases h
        refine ⟨rfl, rfl, ?_⟩
        cases result with
        | ok u =>
            refine Or.inl ⟨rfl, ⟨changed, window_of_set_window_self hwindow changed, ?_⟩,
              fun other hne => window_of_set_window_other hne changed self.replay⟩
            rw [hwindow]
            exact hcommit
        | error error =>
            refine Or.inr ⟨⟨error, rfl⟩, fun other => ?_⟩
            rw [ReplayWindow.commit_error hcommit]
            by_cases hne : other = streamId
            · rw [hne, window_of_set_window_self hwindow, hwindow]
            · exact window_of_set_window_other hne window self.replay
  · rename_i hnone
    split at h
    · cases h
      exact ⟨rfl, rfl, Or.inr ⟨⟨_, rfl⟩, fun _ => rfl⟩⟩
    · cases hcommit : ReplayWindow.new.commit sequence with
      | mk window outcome =>
          rw [hcommit] at h
          cases outcome with
          | error error =>
              cases h
              exact ⟨rfl, rfl, Or.inr ⟨⟨_, rfl⟩, fun _ => rfl⟩⟩
          | ok u =>
              cases h
              refine ⟨rfl, rfl, Or.inl ⟨rfl, ⟨window, ?_, ?_⟩, fun other hne => ?_⟩⟩
              · rw [window_of_append hnone, if_pos rfl]
              · rw [hnone]
                exact hcommit
              · rw [window_of_append hnone, if_neg hne.symm]

/-! ## One frame -/

/-- What a receiver hands to its caller. -/
def delivered : Result (Option ReceivedMessage) → List ReceivedMessage
  | .ok (some message) => [message]
  | _ => []

/-- What one frame does. The contexts afterwards are old ones or base contexts that the frame may
have extended; a delivered message is a completed one, and its sequence number is committed. -/
theorem ingest_cases {result : Result (Option ReceivedMessage)}
    (h : self.ingestFrameInner frame verifier = (next, result)) :
    next.config = self.config ∧
    (∀ context ∈ next.reassembler.contexts, context ∈ self.reassembler.contexts ∨
      ∃ base, self.reassembler.Base frame base ∧
        (context = base ∨ (Reassembler.Stores base frame ∧ context = base.store frame))) ∧
    ((delivered result = [] ∧
        ∀ streamId, windowOf next.replay streamId = windowOf self.replay streamId) ∨
      ∃ message base, result = .ok (some message) ∧ self.reassembler.Base frame base ∧
        Reassembler.Stores base frame ∧
        (base.store frame).parts.any Option.isNone = false ∧
        (base.store frame).message = .ok message ∧
        ReceivedMessage.validateAdmission message verifier = .ok () ∧
        Committed self.replay next.replay message.streamId message.sequence) := by
  dsimp only [ingestFrameInner] at h
  split at h
  · cases h
    exact ⟨rfl, fun _ => Or.inl, Or.inl ⟨rfl, fun _ => rfl⟩⟩
  · split at h
    · cases h
      exact ⟨rfl, fun _ => Or.inl, Or.inl ⟨rfl, fun _ => rfl⟩⟩
    · split at h
      · cases h
        exact ⟨rfl, fun context hmem => Or.inl (Reassembler.clear_contexts context hmem),
          Or.inl ⟨rfl, fun _ => rfl⟩⟩
      · split at h
        · cases h
          exact ⟨rfl, fun _ => Or.inl, Or.inl ⟨rfl, fun _ => rfl⟩⟩
        · cases hpush : self.reassembler.push frame with
          | mk reassembler complete =>
              have hcontexts := Reassembler.push_contexts hpush
              rw [hpush] at h
              dsimp only at h
              split at h
              · cases h
                exact ⟨rfl, hcontexts, Or.inl ⟨rfl, fun _ => rfl⟩⟩
              · cases h
                exact ⟨rfl, hcontexts, Or.inl ⟨rfl, fun _ => rfl⟩⟩
              · rename_i message
                obtain ⟨base, hbase, hstores, hfull, hmessage⟩ := Reassembler.push_complete hpush
                split at h
                · cases h
                  exact ⟨rfl, hcontexts, Or.inl ⟨rfl, fun _ => rfl⟩⟩
                · rename_i u hadmission
                  split at h
                  · rename_i receiver error hcommit
                    cases h
                    obtain ⟨hreassembler, hconfig, ⟨hok, -⟩ | ⟨-, hwindows⟩⟩ :=
                      commit_replay_cases hcommit
                    · cases hok
                    · exact ⟨hconfig, by rwa [hreassembler], Or.inl ⟨rfl, hwindows⟩⟩
                  · rename_i receiver hcommit
                    cases h
                    obtain ⟨hreassembler, hconfig, ⟨-, hcommitted⟩ | ⟨⟨error, herror⟩, -⟩⟩ :=
                      commit_replay_cases hcommit
                    · exact ⟨hconfig, by rwa [hreassembler], Or.inr ⟨message, base, rfl, hbase,
                        hstores, hfull, hmessage, hadmission, hcommitted⟩⟩
                    · cases herror

end AirReceiver

end LatentMesh.AirRadio
