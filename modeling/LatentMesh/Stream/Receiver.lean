import Mathlib.Data.List.Induction
import LatentMesh.Gate.Admission
import LatentMesh.Stream.Escalation
import LatentMesh.Stream.Sequence

/-!
# The receiver of a latent stream

`LatentStreamReceiver` of `receiver.rs`: the gate, then the sequence tracker, then the escalation. A
`Session` is a receiver with the frames that it has admitted. In every session the earned rung is
covered by the frames admitted since the last gap (`Session.run_law`).
-/

namespace LatentMesh.Stream

open LatentMesh.Core LatentMesh.Gate

/-- An admitted frame with the authority that the stream has earned for it. -/
structure AdmittedFrame where
  frame : LatentFrame
  effectiveAuthority : Authority
  sequenceEvent : SequenceEvent

/-- The state of a receiver. -/
structure LatentStreamReceiver where
  policy : Policy
  tracker : SequenceTracker
  escalator : AuthorityEscalator

namespace LatentStreamReceiver

/-- `LatentStreamReceiver::new`. -/
def new (policy : Policy) (escalation : EscalationConfig) : LatentStreamReceiver :=
  ⟨policy, .new, .new escalation⟩

/-- `LatentStreamReceiver::earned_authority`. -/
def earnedAuthority (self : LatentStreamReceiver) : Authority := self.escalator.current

variable (ops : FloatOps)

/-- The escalator that observes a frame: a gap resets it first. -/
def escalatorFor (self : LatentStreamReceiver) : SequenceEvent → AuthorityEscalator
  | .gap _ => self.escalator.reset
  | .inOrder => self.escalator

/-- `LatentStreamReceiver::ingest`. -/
def ingest (self : LatentStreamReceiver) (frame : LatentFrame) :
    LatentStreamReceiver × Result AdmittedFrame :=
  match Gate.admitFrame ops frame self.policy with
  | .error error => (self, .error (.rejected (error.reason ops)))
  | .ok () =>
      match self.tracker.observe frame.sequence with
      | (tracker, .error error) => ({ self with tracker }, .error error)
      | (tracker, .ok sequenceEvent) =>
          let (escalator, effectiveAuthority) :=
            (self.escalatorFor sequenceEvent).observe ops frame.authority frame.confidence
          ({ self with tracker, escalator }, .ok ⟨frame, effectiveAuthority, sequenceEvent⟩)

variable {ops} {self : LatentStreamReceiver}

/-- What an ingest does: it refuses the frame and changes nothing, or the gate and the tracker
accept it and the escalator observes it. -/
theorem ingest_cases (self : LatentStreamReceiver) (frame : LatentFrame) :
    (∃ error, self.ingest ops frame = (self, .error error)) ∨
      ∃ tracker event, Gate.admitFrame ops frame self.policy = .ok () ∧
        self.tracker.observe frame.sequence = (tracker, .ok event) ∧
        self.ingest ops frame =
          (⟨self.policy, tracker,
            ((self.escalatorFor event).observe ops frame.authority frame.confidence).1⟩,
          .ok
            { frame
              effectiveAuthority :=
                ((self.escalatorFor event).observe ops frame.authority frame.confidence).2
              sequenceEvent := event }) := by
  unfold ingest
  cases hadmit : Gate.admitFrame ops frame self.policy with
  | error error => exact Or.inl ⟨_, rfl⟩
  | ok _ =>
      dsimp only
      cases hobserve : self.tracker.observe frame.sequence with
      | mk tracker result =>
          cases result with
          | error error =>
              rw [SequenceTracker.observe_error hobserve]
              exact Or.inl ⟨error, rfl⟩
          | ok event => exact Or.inr ⟨tracker, event, rfl, rfl, rfl⟩

end LatentStreamReceiver

/-- A receiver and the frames that it has admitted. -/
structure Session where
  receiver : LatentStreamReceiver
  admitted : List AdmittedFrame

/-- The frames admitted without a gap: the one that reveals a gap is the first one after it. -/
def framesSinceGap (admitted : List AdmittedFrame) : Nat :=
  admitted.foldl (fun count frame =>
    match frame.sequenceEvent with
    | .gap _ => 1
    | .inOrder => count + 1) 0

/-- A gap starts the count of frames anew. -/
theorem frames_since_gap_concat (admitted : List AdmittedFrame) (frame : AdmittedFrame) :
    framesSinceGap (admitted ++ [frame]) =
      match frame.sequenceEvent with
      | .gap _ => 1
      | .inOrder => framesSinceGap admitted + 1 := by
  rw [framesSinceGap, List.foldl_append]
  rfl

namespace Session

/-- A frame, kept when it is admitted. -/
def step (ops : FloatOps) (self : Session) (frame : LatentFrame) : Session :=
  match self.receiver.ingest ops frame with
  | (receiver, .ok admitted) => ⟨receiver, self.admitted ++ [admitted]⟩
  | (receiver, .error _) => { self with receiver }

/-- A session of some frames. -/
def run (ops : FloatOps) (policy : Policy) (escalation : EscalationConfig)
    (frames : List LatentFrame) : Session :=
  frames.foldl (step ops) ⟨.new policy escalation, []⟩

/-- The sequence numbers of the admitted frames. -/
def sequences (self : Session) : List UInt64 := self.admitted.map fun admitted =>
  admitted.frame.sequence

/-- What holds in every session: the law of a run. -/
structure Law (ops : FloatOps) (policy : Policy) (escalation : EscalationConfig)
    (session : Session) : Prop where
  increasing : session.sequences.Pairwise (· < ·)
  unreserved : maxSequence ∉ session.sequences
  rejected : ∀ frame error, (session.receiver.ingest ops frame).2 = .error error →
    (session.receiver.ingest ops frame).1 = session.receiver
  admitted : ∀ frame admitted, (session.receiver.ingest ops frame).2 = .ok admitted →
    admitted.frame = frame ∧ admitted.effectiveAuthority ≤ frame.authority ∧
      admitted.effectiveAuthority ≤ policy.ceiling (frame.senderModel, frame.receiverSpace) ∧
      (session.receiver.ingest ops frame).1.earnedAuthority.rank ≤
        session.receiver.earnedAuthority.rank + 1
  earned : session.receiver.earnedAuthority.rank * max 1 escalation.minFramesPerRung.toNat ≤
    framesSinceGap session.admitted

/-- The invariant: the tracker is ahead of the admitted sequences, and the frames since the last gap
cover the evidence of the escalator. -/
structure Sound (policy : Policy) (escalation : EscalationConfig) (session : Session) : Prop where
  policy_eq : session.receiver.policy = policy
  config_eq : session.receiver.escalator.config = escalation
  increasing : session.sequences.Pairwise (· < ·)
  unreserved : maxSequence ∉ session.sequences
  behind : ∀ sequence ∈ session.sequences, ∃ expected,
    session.receiver.tracker.nextExpected = some expected ∧ sequence < expected
  covered : session.receiver.escalator.evidence ≤ framesSinceGap session.admitted

variable {ops : FloatOps} {policy : Policy} {escalation : EscalationConfig} {session : Session}

/-- The evidence that is left when a frame is observed, against the frames that count. -/
theorem Sound.covered_step (h : Sound policy escalation session) (frame : LatentFrame)
    (event : SequenceEvent) (effective : Authority) :
    ((session.receiver.escalatorFor event).observe ops frame.authority
        frame.confidence).1.evidence ≤
      framesSinceGap (session.admitted ++ [⟨frame, effective, event⟩]) := by
  obtain ⟨-, -, hevidence⟩ := @AuthorityEscalator.observe_evidence ops
    (session.receiver.escalatorFor event) frame.authority frame.confidence
  refine Nat.le_trans hevidence ?_
  rw [frames_since_gap_concat]
  cases event with
  | inOrder => exact Nat.succ_le_succ h.covered
  | gap missing =>
      -- nothing is left of the evidence
      show 0 * _ + 0 + 1 ≤ 1
      omega

/-- The sequence numbers with one more frame. -/
theorem sequences_concat (receiver : LatentStreamReceiver) (admitted : List AdmittedFrame)
    (frame : AdmittedFrame) :
    (⟨receiver, admitted ++ [frame]⟩ : Session).sequences =
      admitted.map (fun admitted => admitted.frame.sequence) ++ [frame.frame.sequence] := by
  rw [sequences, List.map_append]
  rfl

/-- A frame keeps the session sound. -/
theorem Sound.step (h : Sound policy escalation session) (frame : LatentFrame) :
    Sound policy escalation (session.step ops frame) := by
  unfold Session.step
  rcases @LatentStreamReceiver.ingest_cases ops session.receiver frame with
    ⟨error, hingest⟩ | ⟨tracker, event, -, hobserve, hingest⟩
  · rw [hingest]
    exact h
  · rw [hingest]
    obtain ⟨hmax, hahead, expected, hexpected, hlt⟩ := SequenceTracker.observe_ok hobserve
    have hnew : ∀ sequence ∈ session.sequences, sequence < frame.sequence := by
      intro sequence hmem
      obtain ⟨old, hold, hbehind⟩ := h.behind sequence hmem
      exact UInt64.lt_of_lt_of_le hbehind (hahead old hold)
    obtain ⟨hconfig, -⟩ := @AuthorityEscalator.observe_evidence ops
      (session.receiver.escalatorFor event) frame.authority frame.confidence
    dsimp only
    refine ⟨h.policy_eq, ?_, ?_, ?_, ?_, h.covered_step frame event _⟩
    · rw [hconfig]
      cases event <;> exact h.config_eq
    · rw [sequences_concat]
      refine List.pairwise_append.mpr ⟨h.increasing, List.pairwise_singleton _ _, ?_⟩
      intro sequence hmem other hother
      rw [List.mem_singleton.mp hother]
      exact hnew sequence hmem
    · rw [sequences_concat, List.mem_append, List.mem_singleton]
      rintro (hold | hsame)
      · exact h.unreserved hold
      · exact hmax hsame.symm
    · intro sequence hmem
      rw [sequences_concat, List.mem_append, List.mem_singleton] at hmem
      refine ⟨expected, hexpected, ?_⟩
      rcases hmem with hold | rfl
      · exact UInt64.lt_trans (hnew sequence hold) hlt
      · exact hlt

/-- The invariant over a run. -/
theorem run_sound (policy : Policy) (escalation : EscalationConfig) (frames : List LatentFrame) :
    Sound policy escalation (run ops policy escalation frames) := by
  induction frames using List.reverseRecOn with
  | nil =>
      refine ⟨rfl, rfl, .nil, List.not_mem_nil, fun _ hmem => absurd hmem List.not_mem_nil, ?_⟩
      show 0 * _ + 0 ≤ 0
      omega
  | append_singleton frames frame ih =>
      rw [run, List.foldl_append]
      exact ih.step frame

/-- The earned rung of a session that is sound. -/
theorem Sound.earned (h : Sound policy escalation session) :
    session.receiver.earnedAuthority.rank * escalation.framesPerRung ≤
      framesSinceGap session.admitted := by
  have hcovered := h.covered
  rw [AuthorityEscalator.evidence, h.config_eq] at hcovered
  exact Nat.le_trans (Nat.le_add_right _ _) hcovered

/-- The law holds in every run of the receiver, whatever the floats are. -/
theorem run_law (ops : FloatOps) (policy : Policy) (escalation : EscalationConfig)
    (frames : List LatentFrame) : Law ops policy escalation (run ops policy escalation frames) := by
  have h : Sound policy escalation (run ops policy escalation frames) := run_sound ..
  refine ⟨h.increasing, h.unreserved, fun frame error herror => ?_, fun frame admitted hok => ?_,
    h.earned⟩
  · rcases @LatentStreamReceiver.ingest_cases ops
      (run ops policy escalation frames).receiver frame with
      ⟨_, hingest⟩ | ⟨_, _, -, -, hingest⟩
    · rw [hingest]
    · rw [hingest] at herror
      cases herror
  · rcases @LatentStreamReceiver.ingest_cases ops
      (run ops policy escalation frames).receiver frame with
      ⟨_, hingest⟩ | ⟨tracker, event, hadmit, -, hingest⟩
    · rw [hingest] at hok
      cases hok
    · rw [hingest] at hok ⊢
      cases hok
      have hdeclared := @AuthorityEscalator.observe_le ops
        ((run ops policy escalation frames).receiver.escalatorFor event) frame.authority
        frame.confidence
      have hceiling := Gate.authority_le_of_admit hadmit
      rw [h.policy_eq] at hceiling
      refine ⟨rfl, hdeclared, le_trans hdeclared hceiling, ?_⟩
      obtain ⟨-, hrank, -⟩ := @AuthorityEscalator.observe_evidence ops
        ((run ops policy escalation frames).receiver.escalatorFor event) frame.authority
        frame.confidence
      refine Nat.le_trans hrank (Nat.succ_le_succ ?_)
      -- a gap has put the escalator back to the floor
      cases event with
      | inOrder => exact Nat.le_refl _
      | gap missing => exact Nat.zero_le _

end Session

end LatentMesh.Stream
