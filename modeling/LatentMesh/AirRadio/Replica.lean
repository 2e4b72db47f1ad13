import Mathlib.Data.List.Forall2
import Mathlib.Data.Set.Function
import Mathlib.Tactic.IntervalCases
import LatentMesh.AirCore.EnvelopeCodec
import LatentMesh.AirCore.SemanticHash
import LatentMesh.AirRadio.Delivery

/-!
# Replicas of a critical state

A sender publishes each change of its critical state as a delta, over a link that loses, delays,
reorders and repeats frames, and the receiving application applies the deltas of the messages that
it gets to a state of its own. That state is always one of the sender's: a delta moves it when it is
the state that the delta starts from and there is room for the fields that the delta adds, and it
moves it to the state that the delta leads to (`Exchange.replica_follows_sender`).
-/

namespace LatentMesh.AirRadio

open LatentMesh.AirCore LatentMesh.Lib

/-! ## Applying what was received -/

namespace ReceivedMessage

/-- `ReceivedMessage::semantic_delta`. -/
def semanticDelta (self : ReceivedMessage) : Result SemanticDelta :=
  (semanticEnvelope self).bind fun envelope =>
    if envelope.signature.isSome then .error .authenticationRequired
    else deltaFromEnvelope self envelope

/-- `ReceivedMessage::semantic_delta_verified`. -/
def semanticDeltaVerified (self : ReceivedMessage) (verifier : EnvelopeVerifier) :
    Result SemanticDelta :=
  (verifiedEnvelope self verifier).bind fun envelope => deltaFromEnvelope self envelope

/-- `ReceivedMessage::apply_delta`. -/
def applyDelta (sha256 : List UInt8 → Vector UInt8 32) (self : ReceivedMessage)
    (base : CriticalState) : Result CriticalState :=
  (semanticDelta self).bind fun delta => delta.apply sha256 base

/-- `ReceivedMessage::apply_delta_verified`. -/
def applyDeltaVerified (sha256 : List UInt8 → Vector UInt8 32) (self : ReceivedMessage)
    (base : CriticalState) (verifier : EnvelopeVerifier) : Result CriticalState :=
  (semanticDeltaVerified self verifier).bind fun delta => delta.apply sha256 base

/-- The delta of a message, for an application that verifies signatures or one that does not. -/
def readDelta (verifier : Option EnvelopeVerifier) (self : ReceivedMessage) :
    Result SemanticDelta :=
  match verifier with
  | none => semanticDelta self
  | some verifier => semanticDeltaVerified self verifier

/-- A delta that is read is that of the envelope in the bytes. -/
theorem of_read_delta {verifier : Option EnvelopeVerifier} {self : ReceivedMessage}
    {delta : SemanticDelta} (h : readDelta verifier self = .ok delta) :
    self.semanticClass = .stateDelta ∧ ∃ envelope,
      SemanticEnvelope.decode self.bytes = .ok envelope ∧ envelope.unwrapDelta = .ok delta := by
  have henvelope : ∀ {envelope}, semanticEnvelope self = .ok envelope →
      SemanticEnvelope.decode self.bytes = .ok envelope := by
    intro envelope hread
    obtain ⟨decoded, hdecode, hbound⟩ := bind_eq_ok_iff.mp hread
    obtain ⟨-, hsame⟩ := guard_eq_ok_iff.mp hbound
    cases hsame
    exact hdecode
  have hdelta : ∀ {envelope}, deltaFromEnvelope self envelope = .ok delta →
      self.semanticClass = .stateDelta ∧ envelope.unwrapDelta = .ok delta := by
    intro envelope hread
    obtain ⟨hclass, hbound⟩ := guard_eq_ok_iff.mp hread
    obtain ⟨found, hunwrap, htag⟩ := bind_eq_ok_iff.mp hbound
    obtain ⟨-, hsame⟩ := guard_eq_ok_iff.mp htag
    cases hsame
    exact ⟨not_not.mp hclass, hunwrap⟩
  cases verifier with
  | none =>
      obtain ⟨envelope, hread, hrest⟩ := bind_eq_ok_iff.mp h
      obtain ⟨-, hrest⟩ := guard_eq_ok_iff.mp hrest
      exact ⟨(hdelta hrest).1, envelope, henvelope hread, (hdelta hrest).2⟩
  | some verifier =>
      obtain ⟨envelope, hverified, hrest⟩ := bind_eq_ok_iff.mp h
      obtain ⟨decoded, hread, hsigned⟩ := bind_eq_ok_iff.mp hverified
      have hsame : decoded = envelope := by
        split at hsigned
        · cases hsigned
        · obtain ⟨bytes, -, hgood⟩ := bind_eq_ok_iff.mp hsigned
          exact Except.ok.inj (guard_eq_ok_iff.mp hgood).2
      exact ⟨(hdelta hrest).1, envelope, henvelope (hsame ▸ hread), (hdelta hrest).2⟩

end ReceivedMessage

open ReceivedMessage

/-! ## Published changes -/

/-- The message carries the delta from a state of the history to the next one. -/
def PublishedStep (sha256 : List UInt8 → Vector UInt8 32) (history : ℕ → CriticalState) (i : ℕ)
    (message : ReceivedMessage) : Prop :=
  ∃ sourceId epoch messageId residuals delta priority logicalSequence signature envelope,
    SemanticDelta.between sha256 sourceId epoch messageId (history i) (history (i + 1)) residuals =
        .ok delta ∧
      SemanticEnvelope.wrapDelta delta priority logicalSequence signature = .ok envelope ∧
      envelope.encode = .ok message.bytes

section Steps

variable {sha256 : List UInt8 → Vector UInt8 32} {history : ℕ → CriticalState} {i : ℕ}
  {message : ReceivedMessage} {verifier : Option EnvelopeVerifier} {delta : SemanticDelta}
  {base result : CriticalState}

/-- The delta that is read from a published message applies to its start, and to no other state that
does not collide with it. -/
theorem PublishedStep.apply_iff (h : PublishedStep sha256 history i message)
    (hread : readDelta verifier message = .ok delta)
    (hfree : SemanticDelta.CollisionFree sha256 base (history i)) :
    delta.apply sha256 base = .ok result ↔
      (base = history i ∧ SemanticDelta.Room (history i) (history (i + 1))) ∧
        result = history (i + 1) := by
  obtain ⟨sourceId, epoch, messageId, residuals, sent, priority, logicalSequence, signature,
    envelope, hbetween, hwrap, hencode⟩ := h
  obtain ⟨-, decoded, hdecode, hunwrap⟩ := of_read_delta hread
  obtain ⟨body, hbody, hwrapped⟩ := bind_eq_ok_iff.mp hwrap
  obtain ⟨_, -, henvelope⟩ := bind_eq_ok_iff.mp hwrapped
  obtain ⟨hvalid, hbytes⟩ := SemanticEnvelope.encode_eq_ok_iff.mp hencode
  rw [hbytes] at hdecode
  obtain rfl : envelope = decoded :=
    Except.ok.inj ((SemanticEnvelope.decode_wire hvalid).symm.trans hdecode)
  cases henvelope
  -- what is read is the canonical form of what was sent
  obtain ⟨-, hrest⟩ := guard_eq_ok_iff.mp hunwrap
  obtain ⟨found, hfound, hbound⟩ := bind_eq_ok_iff.mp hrest
  obtain ⟨-, hsame⟩ := guard_eq_ok_iff.mp hbound
  cases hsame
  obtain rfl : sent.canonical = delta :=
    Except.ok.inj ((SemanticDelta.decode_encode hbody).symm.trans hfound)
  obtain ⟨hsound, hbase, -, hupdates⟩ := SemanticDelta.between_eq_ok hbetween
  have hsorted : SemanticDelta.sortUpdates sent.updates = sent.updates := by
    rw [hupdates, SemanticDelta.sortUpdates, SemanticDelta.sortUpdates]
    exact (List.pairwise_insertionSort _ _).insertionSort_eq
  rw [SemanticDelta.apply_canonical hsound hsorted]
  constructor
  · intro happly
    obtain rfl := SemanticDelta.base_of_apply hbase hfree happly
    rw [SemanticDelta.apply_between hbetween] at happly
    split at happly
    · cases happly
      exact ⟨⟨rfl, ‹_›⟩, rfl⟩
    · cases happly
  · rintro ⟨⟨rfl, hroom⟩, rfl⟩
    rw [SemanticDelta.apply_between hbetween, if_pos hroom]

end Steps

/-! ## The replica -/

/-- The state after a message: a message that does not apply changes nothing. -/
def replicaStep (sha256 : List UInt8 → Vector UInt8 32) (verifier : Option EnvelopeVerifier)
    (base : CriticalState) (message : ReceivedMessage) : CriticalState :=
  let applied := match verifier with
    | none => applyDelta sha256 message base
    | some verifier => applyDeltaVerified sha256 message base verifier
  match applied with
  | .ok next => next
  | .error _ => base

/-- A change of the history, taken by a state that the history has at its start, if every field that
the change adds finds room: a delta sets and deletes its fields in the order of their numbers, and a
state that is full in between refuses it whole. -/
noncomputable def advance (history : ℕ → CriticalState) (base : CriticalState) (i : ℕ) :
    CriticalState :=
  open Classical in
  if base = history i ∧ SemanticDelta.Room (history i) (history (i + 1)) then history (i + 1)
  else base

/-- The same for the place in the history. -/
def advanceIndex (history : ℕ → CriticalState) (k i : ℕ) : ℕ :=
  if k = i ∧ SemanticDelta.Room (history i) (history (i + 1)) then i + 1 else k

section Replica

variable {sha256 : List UInt8 → Vector UInt8 32} {verifier : Option EnvelopeVerifier}
  {history : ℕ → CriticalState} {last : ℕ} {base : CriticalState}

/-- The replica applies the delta that it reads. -/
theorem replica_step_eq (sha256 : List UInt8 → Vector UInt8 32)
    (verifier : Option EnvelopeVerifier) (base : CriticalState) (message : ReceivedMessage) :
    replicaStep sha256 verifier base message =
      match (readDelta verifier message).bind fun delta => delta.apply sha256 base with
      | .ok next => next
      | .error _ => base := by
  cases verifier <;> rfl

/-- The replica keeps its state when no delta is read. -/
theorem replica_step_of_error {message : ReceivedMessage} {error : AirError}
    (h : readDelta verifier message = .error error) :
    replicaStep sha256 verifier base message = base := by
  rw [replica_step_eq, h]
  rfl

/-- A message of a published change takes the replica as the change takes the history. -/
theorem replica_step_published {i : ℕ} {message : ReceivedMessage} {delta : SemanticDelta}
    (h : PublishedStep sha256 history i message) (hread : readDelta verifier message = .ok delta)
    (hfree : SemanticDelta.CollisionFree sha256 base (history i)) :
    replicaStep sha256 verifier base message = advance history base i := by
  rw [replica_step_eq, hread]
  show (match delta.apply sha256 base with
    | .ok next => next
    | .error _ => base) = _
  unfold advance
  by_cases hmoves : base = history i ∧ SemanticDelta.Room (history i) (history (i + 1))
  · rw [if_pos hmoves, (h.apply_iff hread hfree).mpr ⟨hmoves, rfl⟩]
  · rw [if_neg hmoves]
    cases happly : delta.apply sha256 base with
    | error error => rfl
    | ok next => exact absurd ((h.apply_iff hread hfree).mp happly).1 hmoves

/-- A change leaves the replica at a state of the history. -/
theorem advance_mem (hbase : ∃ k ≤ last, base = history k) {i : ℕ} (hi : i < last) :
    ∃ k ≤ last, advance history base i = history k := by
  unfold advance
  split
  · exact ⟨i + 1, hi, rfl⟩
  · exact hbase

/-- Changes leave the replica at a state of the history. -/
theorem advance_run_mem {steps : List ℕ} (hsteps : ∀ i ∈ steps, i < last)
    (hbase : ∃ k ≤ last, base = history k) :
    ∃ k ≤ last, steps.foldl (advance history) base = history k := by
  induction steps generalizing base with
  | nil => exact hbase
  | cons i steps ih =>
      obtain ⟨hi, hrest⟩ := List.forall_mem_cons.mp hsteps
      exact ih hrest (advance_mem hbase hi)

/-- Messages of published changes take the replica along the history. -/
theorem replica_run (verifier : Option EnvelopeVerifier) {messages : List ReceivedMessage}
    (hpublished : ∀ message ∈ messages, message.semanticClass = .stateDelta →
      ∃ i < last, PublishedStep sha256 history i message)
    (hfree : ∀ i ≤ last, ∀ j ≤ last,
      SemanticDelta.CollisionFree sha256 (history i) (history j))
    (hbase : ∃ k ≤ last, base = history k) :
    ∃ steps : List ℕ,
      List.Forall₂ (fun i message => i < last ∧ PublishedStep sha256 history i message) steps
        (messages.filter fun message => (readDelta verifier message).isOk) ∧
      messages.foldl (replicaStep sha256 verifier) base = steps.foldl (advance history) base := by
  induction messages generalizing base with
  | nil => exact ⟨[], .nil, rfl⟩
  | cons message messages ih =>
      obtain ⟨hmessage, hmessages⟩ := List.forall_mem_cons.mp hpublished
      cases hread : readDelta verifier message with
      | error error =>
          obtain ⟨steps, hsteps, hrun⟩ := ih hmessages hbase
          refine ⟨steps, ?_, ?_⟩
          · rw [List.filter_cons_of_neg (by rw [hread]; exact Bool.noConfusion)]
            exact hsteps
          · rw [List.foldl_cons, replica_step_of_error hread, hrun]
      | ok delta =>
          obtain ⟨i, hi, hstep⟩ := hmessage (of_read_delta hread).1
          obtain ⟨k, hk, rfl⟩ := hbase
          obtain ⟨steps, hsteps, hrun⟩ := ih hmessages (advance_mem ⟨k, hk, rfl⟩ hi)
          refine ⟨i :: steps, ?_, ?_⟩
          · rw [List.filter_cons_of_pos (by rw [hread]; rfl)]
            exact .cons ⟨hi, hstep⟩ hsteps
          · rw [List.foldl_cons, replica_step_published hstep hread (hfree k hk i hi.le), hrun,
              List.foldl_cons]

/-- The places that changes take a replica through, when the history has no state twice. -/
theorem advance_run {steps : List ℕ} (hsteps : ∀ i ∈ steps, i < last)
    (hdistinct : Set.InjOn history (Set.Iic last)) {k : ℕ} (hk : k ≤ last) :
    steps.foldl (advance history) (history k) = history (steps.foldl (advanceIndex history) k) ∧
      steps.foldl (advanceIndex history) k ≤ last := by
  induction steps generalizing k with
  | nil => exact ⟨rfl, hk⟩
  | cons i steps ih =>
      obtain ⟨hi, hrest⟩ := List.forall_mem_cons.mp hsteps
      have hmoves : advance history (history k) i = history (advanceIndex history k i) := by
        unfold advance advanceIndex
        by_cases heq : k = i
        · subst heq
          simp only [true_and]
          split <;> rfl
        · have hne : history k ≠ history i := fun hsame => heq (hdistinct hk hi.le hsame)
          rw [if_neg (fun h => hne h.1), if_neg (fun h => heq h.1)]
      have hindex : advanceIndex history k i ≤ last := by
        unfold advanceIndex
        split
        · exact hi
        · exact hk
      rw [List.foldl_cons, List.foldl_cons, hmoves]
      exact ih hrest hindex

end Replica

namespace Exchange

/-- Where every state delta that is sent carries a change of the sender's history, and no two states
of the history collide, a receiving application holds a state of the history: it takes the changes
of the messages that it can read, in the order in which it gets them, each just when it holds the
state that the change starts from and has room for the fields that it adds. If the history has no
state twice, its place in the history grows by one with each change that it takes. -/
theorem replica_follows_sender {modems : Modems} {config : TransmitterConfig}
    {receiverConfig : ReceiverConfig} {transmitter : AirTransmitter} {receiver : AirReceiver}
    {state : Exchange} (htransmitter : AirTransmitter.new config = .ok transmitter)
    (hreceiver : AirReceiver.new receiverConfig = .ok receiver)
    (hrun : Reachable (Step modems) ⟨transmitter, receiver, [], [], []⟩ state)
    (hcount : state.enqueued.length < 32768) (sha256 : List UInt8 → Vector UInt8 32)
    (verifier : Option EnvelopeVerifier) (history : ℕ → CriticalState) (last : ℕ)
    (hpublished : ∀ message ∈ state.enqueued, message.semanticClass = .stateDelta →
      ∃ i < last, PublishedStep sha256 history i message)
    (hfree : ∀ i ≤ last, ∀ j ≤ last,
      SemanticDelta.CollisionFree sha256 (history i) (history j)) :
    ∃ steps : List ℕ,
      List.Forall₂ (fun i message => i < last ∧ PublishedStep sha256 history i message) steps
        (state.returned.filter fun message => (readDelta verifier message).isOk) ∧
      state.returned.foldl (replicaStep sha256 verifier) (history 0) =
        steps.foldl (advance history) (history 0) ∧
      (∃ k ≤ last, state.returned.foldl (replicaStep sha256 verifier) (history 0) = history k) ∧
      (Set.InjOn history (Set.Iic last) →
        state.returned.foldl (replicaStep sha256 verifier) (history 0) =
          history (steps.foldl (advanceIndex history) 0)) := by
  have h : Invariant config state :=
    hrun.invariant (fun current => current.enqueued.length < 32768 → Invariant config current)
      (fun _ => Invariant.start htransmitter hreceiver)
      (fun _ _ ih hstep hnext =>
        (ih (Nat.lt_of_le_of_lt hstep.enqueued_length_le hnext)).step hstep hnext) hcount
  obtain ⟨steps, hsteps, hfold⟩ := replica_run verifier
    (fun message hmessage => hpublished message (h.returned message hmessage)) hfree
    ⟨0, Nat.zero_le last, rfl⟩
  have hbound := ((List.forall₂_and_left steps _).mp hsteps).1
  refine ⟨steps, hsteps, hfold, ?_, fun hdistinct => ?_⟩
  · rw [hfold]
    exact advance_run_mem hbound ⟨0, Nat.zero_le last, rfl⟩
  · rw [hfold]
    exact (advance_run hbound hdistinct (Nat.zero_le last)).1

/-- The history of a sender that makes one change. -/
def sampleHistory (i : ℕ) : CriticalState :=
  if i = 0 then SemanticDelta.sampleBefore else SemanticDelta.sampleAfter

/-- A delta of two updates. -/
def sampleDelta : SemanticDelta :=
  ⟨7, 3, 99, SemanticDelta.sampleBefore.criticalHash SemanticDelta.sampleSha256,
    SemanticDelta.sampleAfter.criticalHash SemanticDelta.sampleSha256,
    [.set 1 (.bool false), .set 3 (.u64 828)], []⟩

/-- The envelope of the sample delta. -/
def sampleEnvelope : SemanticEnvelope :=
  ⟨.stateDelta, 0, 7, 3, 99, 0, sampleDelta.resultHash, sampleDelta.canonical.wire, none⟩

/-- The metadata of the sample delta's message. -/
def sampleDeltaMeta : FragmentMeta :=
  sampleTransmitter.nextMeta 7 .stateDelta 0 (stateHashTag sampleDelta.resultHash)
    (sampleTransmitter.deltaFlags none)

/-- The sample delta in one frame. -/
def sampleDeltaFrame : SparseRadioFrame := sampleDeltaMeta.frame 0 1 sampleEnvelope.wire

set_option maxRecDepth 8192 in
/-- A published change, delivered to a replica. -/
theorem replica_follows_sender_change :
    ∃ receiver state, AirTransmitter.new (.forLink (.forProfile .wifi)) = .ok sampleTransmitter ∧
      AirReceiver.new (.forLink (.forProfile .wifi)) = .ok receiver ∧
      Reachable (Step sampleModems) ⟨sampleTransmitter, receiver, [], [], []⟩ state ∧
      state.returned = [⟨sampleDeltaMeta, sampleEnvelope.wire⟩] ∧
      ∃ k ≤ 1, state.returned.foldl (replicaStep SemanticDelta.sampleSha256 none)
        (sampleHistory 0) = sampleHistory k := by
  have htransmitter :
      AirTransmitter.new (.forLink (.forProfile .wifi)) = .ok sampleTransmitter := rfl
  obtain ⟨receiver, hreceiver⟩ :
      ∃ receiver, AirReceiver.new (.forLink (.forProfile .wifi)) = .ok receiver := ⟨_, rfl⟩
  have hbetween : SemanticDelta.between SemanticDelta.sampleSha256 7 3 99 (sampleHistory 0)
      (sampleHistory (0 + 1)) [] = .ok sampleDelta := rfl
  have hwrap : SemanticEnvelope.wrapDelta sampleDelta 0 0 none = .ok sampleEnvelope := rfl
  have hencode : sampleEnvelope.encode = .ok sampleEnvelope.wire := rfl
  have hframe : sampleDeltaFrame.encode = .ok sampleDeltaFrame.wire :=
    SparseRadioFrame.encode_eq_ok_iff.mpr ⟨by constructor <;> decide +kernel, rfl⟩
  have hframes : fragmentMessage sampleDeltaMeta sampleEnvelope.wire
      sampleTransmitter.config.link.frameMtu = .ok [sampleDeltaFrame] := by decide +kernel
  have hflags : sampleTransmitter.enqueueMessageWithFlags 7 .stateDelta 0
      (stateHashTag sampleDelta.resultHash) sampleEnvelope.wire
      (sampleTransmitter.deltaFlags sampleEnvelope.signature) =
      .ok (0, ⟨.forLink (.forProfile .wifi), 1, 0, [sampleDeltaFrame]⟩) :=
    bind_eq_ok_iff.mpr ⟨_, hframes, rfl⟩
  have henqueue : sampleTransmitter.enqueueDeltaWithSignature 7 sampleDelta 0 none =
      .ok (0, ⟨.forLink (.forProfile .wifi), 1, 1, [sampleDeltaFrame]⟩) :=
    bind_eq_ok_iff.mpr ⟨_, hwrap, bind_eq_ok_iff.mpr ⟨_, hencode,
      bind_eq_ok_iff.mpr ⟨_, hflags, rfl⟩⟩⟩
  have htransmit : AirTransmitter.nextTransmission sampleModems
      ⟨.forLink (.forProfile .wifi), 1, 1, [sampleDeltaFrame]⟩ =
      (⟨.forLink (.forProfile .wifi), 1, 1, []⟩,
        .ok (some (.bytes sampleDeltaFrame sampleDeltaFrame.wire))) := by
    simp only [AirTransmitter.nextTransmission, hframe]
    rfl
  have hstart : Reachable (Step sampleModems) ⟨sampleTransmitter, receiver, [], [], []⟩ _ := .start
  have hsent := (hstart.step (.enqueueDelta hwrap hencode henqueue)).step (.transmit htransmit)
  have hingest : receiver.ingestFrameInner sampleDeltaFrame none = (_, _) := (Prod.eta _).symm
  have hdone := hsent.step (.ingestFrame (List.mem_singleton_self _) hingest)
  have hhashes : SemanticDelta.sampleBefore.criticalHash SemanticDelta.sampleSha256 ≠
      SemanticDelta.sampleAfter.criticalHash SemanticDelta.sampleSha256 := by decide
  have hfree : ∀ i ≤ 1, ∀ j ≤ 1, SemanticDelta.CollisionFree SemanticDelta.sampleSha256
      (sampleHistory i) (sampleHistory j) := by
    intro i hi j hj hsame
    interval_cases i <;> interval_cases j
    · rfl
    · exact absurd hsame hhashes
    · exact absurd hsame hhashes.symm
    · rfl
  obtain ⟨-, -, -, hholds, -⟩ := replica_follows_sender htransmitter hreceiver hdone
    (show 1 < 32768 by decide) SemanticDelta.sampleSha256 none sampleHistory 1
    (fun message hmessage _ => ⟨0, Nat.zero_lt_one, 7, 3, 99, [], sampleDelta, 0, 0, none,
      sampleEnvelope, hbetween, hwrap, by
        rw [List.mem_singleton.mp hmessage]
        exact hencode⟩) hfree
  refine ⟨receiver, _, htransmitter, hreceiver, hdone, ?_, hholds⟩
  cases hreceiver
  rfl

end Exchange

end LatentMesh.AirRadio
