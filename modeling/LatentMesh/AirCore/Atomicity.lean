import LatentMesh.AirCore.Contexts
import LatentMesh.Lib.Transition

/-!
# Failed pushes

`Reassembler.push` creates the context of a new message before it checks the length of the payload.
A failed push leaves the table as it was, except for the first frame of a message whose payload is
longer than `max_message_bytes`: its empty context stays (`Reassembler.push_atomic_iff`).
-/

namespace LatentMesh.AirCore

open LatentMesh.Lib

namespace Reassembler

variable {self next : Reassembler} {frame : SparseRadioFrame}

/-- The calls that change a table. -/
inductive Call : Reassembler → Reassembler → Prop where
  | push (self : Reassembler) (frame : SparseRadioFrame) : Call self (self.push frame).1
  | clear (self : Reassembler) (streamId sequence : UInt16) :
      Call self (self.clear streamId sequence)

/-- An error of this push leaves the contexts as they were. -/
def PushAtomic (self : Reassembler) (frame : SparseRadioFrame) : Prop :=
  ∀ error, (self.push frame).2 = .error error → (self.push frame).1.contexts = self.contexts

/-- Every reachable table is within the bounds of its configuration. -/
theorem reachable_bounded {config : ReassemblerConfig} {start : Reassembler}
    (hstart : new config = .ok start) (h : Reachable Call start self) : self.Bounded config := by
  refine h.invariant (fun table => table.Bounded config) (new_bounded hstart) ?_
  intro table following hbounded hcall
  cases hcall with
  | push frame => exact @Bounded.push table _ frame _ _ hbounded rfl
  | clear streamId sequence => exact hbounded.clear streamId sequence

/-- An oversized frame leaves its empty context in the table. -/
theorem push_oversized (hvalid : frame.Valid) (h : self.Oversized frame) :
    self.push frame =
      ({ self with contexts := self.contexts ++ [Context.ofFrame frame] },
        .error .limitExceeded) := by
  have hnew : self.contextOf frame.key = none :=
    context_of_eq_none_iff.mpr (position_eq_none_iff.mpr h.fresh)
  have hbytes : self.config.maxMessageBytes <
      (Context.ofFrame frame).totalBytes + frame.payload.length := by
    show _ < 0 + _
    rw [Nat.zero_add]
    exact h.payload
  rw [push_eq_push_at_new hvalid h.count hnew h.room, pushAt, if_neg (of_frame_agrees frame),
    Context.of_frame_part frame frame.fragmentIndex.toNat]
  dsimp only
  rw [if_pos hbytes]

/-- A failed push is atomic exactly when the frame is not oversized. -/
theorem push_atomic_iff_not_oversized (hvalid : frame.Valid) :
    self.PushAtomic frame ↔ ¬ self.Oversized frame := by
  constructor
  · intro hatomic hoversized
    have hpush := push_oversized hvalid hoversized
    have hcontexts := hatomic .limitExceeded (by rw [hpush])
    rw [hpush] at hcontexts
    exact absurd hcontexts (by simp)
  · intro hfits error hresult
    rcases push_error_cases (Prod.ext rfl hresult : self.push frame = (_, .error error)) with
      hsame | ⟨hoversized, -⟩
    · exact congrArg contexts hsame
    · exact absurd hoversized hfits

/-- In every table that calls reach, a failed push of a valid frame leaves the contexts as they were
exactly when the frame has too many fragments, is of a message in flight, finds the table full, or
carries no more bytes than a message may have. -/
theorem push_atomic_iff {config : ReassemblerConfig} {start self : Reassembler}
    (hstart : new config = .ok start) (hrun : Reachable Call start self)
    {frame : SparseRadioFrame} (hvalid : frame.Valid) :
    self.PushAtomic frame ↔
      config.maxFragments < frame.fragmentCount ∨
        self.hasInFlight frame.streamId frame.sequence = true ∨
        self.contexts.length = config.maxContexts ∨
        frame.payload.length ≤ config.maxMessageBytes := by
  have hconfig := (reachable_bounded hstart hrun).config_eq
  rw [push_atomic_iff_not_oversized hvalid, ← hconfig]
  constructor
  · intro hfits
    by_contra hnone
    simp only [not_or, UInt8.not_lt, Bool.not_eq_true, Nat.not_le] at hnone
    exact hfits ⟨hnone.1, hnone.2.1, hnone.2.2.1, hnone.2.2.2⟩
  · rintro hsome ⟨hcount, hfresh, hroom, hpayload⟩
    rcases hsome with hmany | hflight | hfull | hshort
    · exact UInt8.not_lt.mpr hcount hmany
    · rw [hfresh] at hflight
      cases hflight
    · exact hroom hfull
    · exact Nat.not_lt.mpr hshort hpayload

/-- A table of one context for messages of at most two bytes. -/
def smallConfig : ReassemblerConfig where
  maxContexts := 1
  maxMessageBytes := 2
  maxFragments := 32

/-- The only frame of a message on stream 1. -/
def wholeFrame (sequence : UInt16) (payload : List UInt8) : SparseRadioFrame where
  profile := .wifi
  flags := FrameFlags.none
  streamId := 1
  sequence := sequence
  fragmentIndex := 0
  fragmentCount := 1
  semanticClass := .telemetry
  priority := 0
  stateTag := 0
  payload := payload

/-- The theorem at a table for small messages. -/
theorem push_atomic_iff_small :
    ∃ start, new smallConfig = .ok start ∧ start.PushAtomic (wholeFrame 0 [1, 2]) := by
  have hstart : new smallConfig = .ok ⟨smallConfig, []⟩ := rfl
  refine ⟨_, hstart, (push_atomic_iff hstart .start ?_).mpr ?_⟩
  · constructor <;> decide
  · exact Or.inr (Or.inr (Or.inr (by decide)))

/-- A valid frame of three bytes is refused but takes the only context, and the next message finds
the table full. -/
theorem oversized_frame_leaks :
    ∃ start, new smallConfig = .ok start ∧ start.contexts = [] ∧
      (wholeFrame 0 [1, 2, 3]).Valid ∧
      (start.push (wholeFrame 0 [1, 2, 3])).2 = .error .limitExceeded ∧
      (start.push (wholeFrame 0 [1, 2, 3])).1.contexts =
        [Context.ofFrame (wholeFrame 0 [1, 2, 3])] ∧
      ((start.push (wholeFrame 0 [1, 2, 3])).1.push (wholeFrame 1 [1])).2 =
        .error .reassemblyFull :=
  ⟨_, rfl, rfl, by constructor <;> decide, by decide, by decide, by decide⟩

end Reassembler

end LatentMesh.AirCore
