import Mathlib.Algebra.Order.Group.Nat
import LatentMesh.Core.LatentFrame
import LatentMesh.Stream.Error

/-!
# Sequence numbers of a latent stream

`LatentStreamSender` and `SequenceTracker` of `sequence.rs`. The sender stamps consecutive numbers.
The tracker accepts only forward progress and reports gaps. What it has accepted stays below
`next_expected`.
-/

namespace LatentMesh.Stream

open LatentMesh.Core

/-- What the tracker has observed about an accepted frame. -/
inductive SequenceEvent where
  | inOrder
  | gap (missing : UInt64)
  deriving DecidableEq, Repr

/-- The frames that an event reports missing. -/
def SequenceEvent.missing : SequenceEvent → Nat
  | .inOrder => 0
  | .gap missing => missing.toNat

/-- `u64::MAX`. -/
def maxSequence : UInt64 := 0xffffffffffffffff

/-- The counter of a sender. -/
structure LatentStreamSender where
  nextSequence : UInt64
  deriving DecidableEq, Repr

namespace LatentStreamSender

/-- `LatentStreamSender::new`. -/
def new : LatentStreamSender := ⟨0⟩

/-- The frame with the next sequence number. The number saturates. -/
def stamp (self : LatentStreamSender) (frame : LatentFrame) : LatentStreamSender × LatentFrame :=
  (⟨if self.nextSequence = maxSequence then maxSequence else self.nextSequence + 1⟩,
    { frame with sequence := self.nextSequence })

/-- A sequence of frames, each of them stamped. -/
def stampAll (self : LatentStreamSender) : List LatentFrame → List LatentFrame
  | [] => []
  | frame :: frames => (self.stamp frame).2 :: (self.stamp frame).1.stampAll frames

/-- Before the numbers saturate, every frame is stamped with a later one. -/
theorem stamp_all_increasing {self : LatentStreamSender} {frames : List LatentFrame}
    (h : self.nextSequence.toNat + frames.length < 2 ^ 64) :
    (self.stampAll frames).Pairwise (fun first second => first.sequence < second.sequence) ∧
      ∀ frame ∈ self.stampAll frames, self.nextSequence ≤ frame.sequence ∧
        frame.sequence ≠ maxSequence := by
  induction frames generalizing self with
  | nil => exact ⟨.nil, fun _ hframe => absurd hframe List.not_mem_nil⟩
  | cons frame frames ih =>
      rw [List.length_cons] at h
      have hmax : self.nextSequence ≠ maxSequence := by
        intro heq
        rw [heq] at h
        have hvalue : maxSequence.toNat = 2 ^ 64 - 1 := rfl
        omega
      have hnext : (self.stamp frame).1.nextSequence.toNat = self.nextSequence.toNat + 1 := by
        show (if _ then _ else _ : UInt64).toNat = _
        rw [if_neg hmax, UInt64.toNat_add, UInt64.toNat_one, Nat.mod_eq_of_lt (by omega)]
      obtain ⟨hincreasing, hbounds⟩ := @ih (self.stamp frame).1 (by omega)
      have hlater : ∀ other ∈ (self.stamp frame).1.stampAll frames,
          self.nextSequence < other.sequence := by
        intro other hother
        have hle := UInt64.le_iff_toNat_le.mp (hbounds other hother).1
        exact UInt64.lt_iff_toNat_lt.mpr (by omega)
      refine ⟨.cons hlater hincreasing, fun other hother => ?_⟩
      rcases List.mem_cons.mp hother with rfl | hrest
      · exact ⟨UInt64.le_refl _, hmax⟩
      · exact ⟨UInt64.le_of_lt (hlater other hrest), (hbounds other hrest).2⟩

end LatentStreamSender

/-- The highest accepted sequence plus one, once a frame has been accepted. -/
structure SequenceTracker where
  nextExpected : Option UInt64
  deriving DecidableEq, Repr

namespace SequenceTracker

/-- `SequenceTracker::new`. -/
def new : SequenceTracker := ⟨none⟩

/-- `SequenceTracker::observe`. -/
def observe (self : SequenceTracker) (sequence : UInt64) : SequenceTracker × Result SequenceEvent :=
  if sequence = maxSequence then
    (self, .error (.malformed "sequence u64::MAX is reserved (successor unrepresentable)"))
  else
    match self.nextExpected with
    | none => (⟨some (sequence + 1)⟩, .ok .inOrder)
    | some expected =>
        if sequence + 1 = expected then (self, .error (.duplicateSequence sequence))
        else if sequence < expected then
          (self, .error (.regressedSequence sequence (expected - 1)))
        else
          let missing := sequence - expected
          (⟨some (sequence + 1)⟩, .ok (if missing = 0 then .inOrder else .gap missing))

variable {self next : SequenceTracker} {sequence : UInt64}

/-- A refused sequence changes nothing. -/
theorem observe_error {error : StreamError} (h : self.observe sequence = (next, .error error)) :
    next = self := by
  unfold observe at h
  split at h
  · cases h
    rfl
  · split at h
    · cases h
    · split at h
      · cases h
        rfl
      · split at h
        · cases h
          rfl
        · cases h

/-- An accepted sequence is not reserved, is not behind what is expected, and is below what is
expected next. -/
theorem observe_ok {event : SequenceEvent} (h : self.observe sequence = (next, .ok event)) :
    sequence ≠ maxSequence ∧ (∀ expected, self.nextExpected = some expected → expected ≤ sequence) ∧
      ∃ expected, next.nextExpected = some expected ∧ sequence < expected := by
  unfold observe at h
  split at h
  · cases h
  · rename_i hmax
    have hlt : sequence < sequence + 1 := by
      have hne : sequence.toNat ≠ 0xffffffffffffffff := fun heq => hmax (UInt64.toNat_inj.mp heq)
      have hbound := sequence.toNat_lt
      rw [UInt64.lt_iff_toNat_lt, UInt64.toNat_add, UInt64.toNat_one, Nat.mod_eq_of_lt (by omega)]
      omega
    split at h
    · rename_i hnone
      cases h
      refine ⟨hmax, fun expected hsome => ?_, _, rfl, hlt⟩
      rw [hnone] at hsome
      cases hsome
    · rename_i expected hexpected
      split at h
      · cases h
      · split at h
        · cases h
        · rename_i hforward
          cases h
          refine ⟨hmax, fun other hother => ?_, _, rfl, hlt⟩
          rw [hexpected] at hother
          cases hother
          exact UInt64.not_lt.mp hforward

/-- A frame later than the last is accepted, and the gap is what lies between. -/
theorem observe_later {last : UInt64} (hexpected : self.nextExpected = some (last + 1))
    (hlater : last < sequence) (hmax : sequence ≠ maxSequence) :
    ∃ event, self.observe sequence = (⟨some (sequence + 1)⟩, .ok event) ∧
      last.toNat + 1 + event.missing = sequence.toNat := by
  have hlt := UInt64.lt_iff_toNat_lt.mp hlater
  have hbound := sequence.toNat_lt
  have hnext : (last + 1).toNat = last.toNat + 1 := by
    rw [UInt64.toNat_add, UInt64.toNat_one, Nat.mod_eq_of_lt (by omega)]
  have hforward : last + 1 ≤ sequence := UInt64.le_iff_toNat_le.mpr (by omega)
  have hduplicate : sequence + 1 ≠ last + 1 := by
    intro heq
    have hne : sequence.toNat ≠ 0xffffffffffffffff := fun heq => hmax (UInt64.toNat_inj.mp heq)
    have hsame := congrArg UInt64.toNat heq
    rw [hnext, UInt64.toNat_add, UInt64.toNat_one, Nat.mod_eq_of_lt (by omega)] at hsame
    omega
  have hmissing : (sequence - (last + 1)).toNat = sequence.toNat - (last.toNat + 1) := by
    rw [UInt64.toNat_sub_of_le _ _ hforward, hnext]
  have hobserve : self.observe sequence = (⟨some (sequence + 1)⟩,
      .ok (if sequence - (last + 1) = 0 then .inOrder else .gap (sequence - (last + 1)))) := by
    rw [observe, if_neg hmax, hexpected]
    dsimp only
    rw [if_neg hduplicate, if_neg (UInt64.not_lt.mpr hforward)]
  refine ⟨_, hobserve, ?_⟩
  split
  · rename_i hzero
    rw [hzero, UInt64.toNat_zero] at hmissing
    show last.toNat + 1 + 0 = _
    omega
  · show last.toNat + 1 + (sequence - (last + 1)).toNat = _
    omega

end SequenceTracker

end LatentMesh.Stream
