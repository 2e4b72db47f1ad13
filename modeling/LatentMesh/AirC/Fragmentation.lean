import LatentMesh.AirC.Transfer

/-!
# Fragmentation

`lm_air_tx_begin` narrows the number of fragments to a byte before it compares it with 32. A message
is cut completely exactly when that makes no difference (`fragmentation_complete_iff`): the polls
then emit the fragments of the whole envelope in order, and a message that is not begun emits
nothing.
-/

namespace LatentMesh.AirC

open LatentMesh.Lib LatentMesh.AirCore

/-- The polls from a transmitter up to `LM_AIR_COMPLETE` and the frames that their blocks carry. -/
inductive PollsTo : LmAirTx → List LmAirFrame → Prop where
  | last {tx tx' : LmAirTx} {block : LmAirBlock} {frame : LmAirFrame}
      (hpoll : lmAirTxPoll tx = (tx', .complete, some block)) (hcarries : block.Carries frame) :
      PollsTo tx [frame]
  | more {tx tx' : LmAirTx} {block : LmAirBlock} {frame : LmAirFrame} {rest : List LmAirFrame}
      (hpoll : lmAirTxPoll tx = (tx', .more, some block)) (hcarries : block.Carries frame)
      (hrest : PollsTo tx' rest) : PollsTo tx (frame :: rest)

/-- Frames cut an envelope into fragments, in order. -/
structure CutsCompletely (frames : List LmAirFrame) (envelope : List UInt8) : Prop where
  payloads : (frames.flatMap fun frame => frame.payload.take frame.payloadLen.toNat) = envelope
  indices : frames.map (fun frame => frame.fragmentIndex.toNat) = List.range frames.length
  counts : ∀ frame ∈ frames, frame.fragmentCount.toNat = frames.length

/-- What a transmitter is to do with a message: it begins the message when it has at most 32
fragments, and emits all of them, or it fails and emits none. -/
def FragmentsCompletely (sign : Option LmAirSign) (tx : LmAirTx) (message : LmAirMessage) : Prop :=
  ((lmAirTxBegin sign tx message).2 = .ok →
    divCeil (envelopeLen message) tx.profile.fragmentPayloadBytes.toNat ≤ lmAirMaxFragments ∧
    ∃ signature frames, Signs sign message signature ∧
      PollsTo (lmAirTxBegin sign tx message).1 frames ∧
      CutsCompletely frames (envelopeBytes message signature)) ∧
  ((lmAirTxBegin sign tx message).2 ≠ .ok → (lmAirTxBegin sign tx message).2.isError = true ∧
    ((lmAirTxBegin sign tx message).1 = tx ∨
      lmAirTxPoll (lmAirTxBegin sign tx message).1 =
        ((lmAirTxBegin sign tx message).1, .errState, none)))

/-- `lm_air_tx_begin` gets as far as counting the fragments. -/
structure ReachesCount (sign : Option LmAirSign) (tx : LmAirTx) (message : LmAirMessage) :
    Prop where
  class_le : message.classId ≤ lmAirClassDiagnostic
  priority_le : message.priority ≤ 0x0f
  phase : tx.phase ≠ .emitting
  signed : message.authenticated ≠ 0 →
    ∃ hook, sign = some hook ∧ (hook (canonicalBytes message)).1 = 0
  fits : envelopeLen message ≤ lmAirMaxAssembledBytes

/-! ## When a message is begun -/

section

variable {sign : Option LmAirSign} {tx : LmAirTx} {message : LmAirMessage}

/-- The envelope of an unsigned message needs no sign hook. -/
theorem write_envelope_plain (sign : Option LmAirSign) (envelope : List UInt8)
    (hflag : message.authenticated = 0) : (writeEnvelope sign message envelope).1 = 0 := by
  unfold writeEnvelope signEnvelope
  rw [signature_len_plain hflag]
  cases sign <;> rfl

/-- The answer for a signed message is that of the sign hook. -/
theorem write_envelope_signed (hook : LmAirSign) {envelope : List UInt8}
    (hflag : message.authenticated ≠ 0) (hroom : canonicalLen message ≤ envelope.length) :
    (writeEnvelope (some hook) message envelope).1 = (hook (canonicalBytes message)).1 := by
  unfold writeEnvelope signEnvelope
  rw [← canonicalBytes, write_canonical_read hroom, signature_len_signed hflag]
  rfl

/-- The sign hook is there and signs, if it is needed. -/
theorem signed_iff {envelope : List UInt8} (hroom : canonicalLen message ≤ envelope.length) :
    (¬ (message.authenticated ≠ 0 ∧ sign = none) ∧ (writeEnvelope sign message envelope).1 = 0) ↔
      (message.authenticated ≠ 0 →
        ∃ hook, sign = some hook ∧ (hook (canonicalBytes message)).1 = 0) := by
  by_cases hflag : message.authenticated = 0
  · exact iff_of_true ⟨fun h => h.1 hflag, write_envelope_plain sign envelope hflag⟩
      fun h => absurd hflag h
  · cases sign with
    | none =>
        refine iff_of_false (fun h => h.1 ⟨hflag, rfl⟩) fun h => ?_
        obtain ⟨hook, hsome, -⟩ := h hflag
        cases hsome
    | some hook =>
        rw [write_envelope_signed hook hflag hroom]
        constructor
        · exact fun h _ => ⟨hook, rfl, h.2⟩
        · intro h
          obtain ⟨_, hsome, hzero⟩ := h hflag
          cases hsome
          exact ⟨fun hnone => (nomatch hnone.2), hzero⟩

/-- The number of fragments as `lm_air_tx_begin` sees it. -/
def countByte (tx : LmAirTx) (message : LmAirMessage) : UInt8 :=
  UInt8.ofNat (divCeil (envelopeLen message) tx.profile.fragmentPayloadBytes.toNat)

/-- A message is begun when the count is reached and is between 1 and 32. -/
theorem begin_ok_iff : (lmAirTxBegin sign tx message).2 = .ok ↔
    ReachesCount sign tx message ∧ countByte tx message ≠ 0 ∧
      (countByte tx message).toNat ≤ lmAirMaxFragments := by
  have hcount := @div_ceil_eq (envelopeLen message) _ (payload_bytes_pos tx)
  unfold lmAirTxBegin
  dsimp only
  rw [← canonicalLen, ← envelopeLen, hcount, ← countByte]
  simp only [apply_ite Prod.snd, ne_eq, reduceCtorEq, not_false_eq_true, guard_eq_iff, not_or,
    not_not, and_true, UInt8.not_lt, Nat.not_lt]
  constructor
  · rintro ⟨⟨hclass, hpriority⟩, hphase, hhook, hfits, hanswer, hbyte⟩
    have hroom : canonicalLen message ≤ tx.envelope.length := by
      rw [tx.envelope_size]
      exact Nat.le_trans (Nat.le_add_right _ _) hfits
    exact ⟨⟨hclass, hpriority, hphase, (signed_iff hroom).mp ⟨hhook, hanswer⟩, hfits⟩, hbyte⟩
  · rintro ⟨⟨hclass, hpriority, hphase, hsigned, hfits⟩, hbyte⟩
    have hroom : canonicalLen message ≤ tx.envelope.length := by
      rw [tx.envelope_size]
      exact Nat.le_trans (Nat.le_add_right _ _) hfits
    obtain ⟨hhook, hanswer⟩ := (signed_iff hroom).mpr hsigned
    exact ⟨⟨hclass, hpriority⟩, hphase, hhook, hfits, hanswer, hbyte⟩

end

/-! ## What the polls emit -/

/-- The polls of a transfer emit its remaining frames. -/
theorem LmAirTx.Sends.polls_to {tx : LmAirTx} {transfer : Transfer} {index : Nat}
    (h : tx.Sends transfer index) :
    PollsTo tx ((List.range' index (transfer.count - index)).map transfer.frame) := by
  have hlt := h.index_lt
  obtain ⟨rest, hrest⟩ : ∃ rest, transfer.count = index + 1 + rest :=
    ⟨_, (Nat.add_sub_cancel' hlt).symm⟩
  have hcount : transfer.count - index = rest + 1 := by omega
  rw [hcount, List.range'_succ, List.map_cons]
  clear hlt hcount
  induction rest generalizing tx index with
  | zero =>
      obtain ⟨block, hcarries, hpoll⟩ := h.poll
      rw [if_pos hrest.symm] at hpoll
      exact .last hpoll hcarries
  | succ rest ih =>
      have hmore : index + 1 ≠ transfer.count := by omega
      obtain ⟨block, hcarries, hpoll⟩ := h.poll
      rw [if_neg hmore] at hpoll
      have hnext := ih (h.advance hmore) (by omega)
      rw [List.range'_succ, List.map_cons]
      exact .more hpoll hcarries hnext

/-- The frames of a transfer cut its envelope completely. -/
theorem Transfer.cuts_completely (transfer : Transfer) :
    CutsCompletely ((List.range transfer.count).map transfer.frame) transfer.envelope := by
  refine ⟨?_, ?_, ?_⟩
  · rw [List.flatMap_map, ← transfer.fragments_flatten]
    congr 1
    funext index
    exact transfer.frame_payload index
  · rw [List.map_map, List.length_map, List.length_range]
    refine (List.map_congr_left fun index hindex => ?_).trans (List.map_id _)
    exact transfer.index_to_nat (List.mem_range.mp hindex)
  · rw [List.length_map, List.length_range, List.forall_mem_map]
    intro index _
    exact transfer.count_to_nat

/-- A failed transmitter emits nothing. -/
theorem poll_of_failed {tx : LmAirTx} (h : tx.phase = .failed) :
    lmAirTxPoll tx = (tx, .errState, none) := by
  rw [lmAirTxPoll, h]
  rfl

/-- A message that is not begun leaves the transmitter as it was, or failed. -/
theorem begin_refused {sign : Option LmAirSign} {tx : LmAirTx} {message : LmAirMessage}
    (h : (lmAirTxBegin sign tx message).2 ≠ .ok) :
    (lmAirTxBegin sign tx message).2.isError = true ∧
      ((lmAirTxBegin sign tx message).1 = tx ∨
        (lmAirTxBegin sign tx message).1.phase = .failed) := by
  have houtcome := begin_outcome sign tx message
  generalize (lmAirTxBegin sign tx message).2 = status at h houtcome ⊢
  cases houtcome with
  | refused hstatus hsame => exact ⟨hstatus, Or.inl hsame⟩
  | failed hstatus hphase hprofile hstream hnext => exact ⟨hstatus, Or.inr hphase⟩
  | begun hbegun => exact absurd rfl h

/-- A message is fragmented completely exactly when it does not get as far as the count of its
fragments, or the count is at most 32, or the byte that is left of it is not from 1 to 32. -/
theorem fragmentation_complete_iff (sign : Option LmAirSign) (tx : LmAirTx)
    (message : LmAirMessage) :
    FragmentsCompletely sign tx message ↔
      (ReachesCount sign tx message →
        divCeil (envelopeLen message) tx.profile.fragmentPayloadBytes.toNat ≤ 32 ∨
        divCeil (envelopeLen message) tx.profile.fragmentPayloadBytes.toNat % 256 = 0 ∨
        32 < divCeil (envelopeLen message) tx.profile.fragmentPayloadBytes.toNat % 256) := by
  have hbyte : (countByte tx message).toNat =
      divCeil (envelopeLen message) tx.profile.fragmentPayloadBytes.toNat % 256 :=
    UInt8.toNat_ofNat' ..
  have hzero : countByte tx message = 0 ↔
      divCeil (envelopeLen message) tx.profile.fragmentPayloadBytes.toNat % 256 = 0 := by
    rw [← hbyte, ← UInt8.toNat_inj]
    rfl
  constructor
  · intro hcomplete hreaches
    by_contra hcount
    rw [not_or, not_or, Nat.not_le, Nat.not_lt] at hcount
    obtain ⟨hmany, hnonzero, hsmall⟩ := hcount
    have hok := begin_ok_iff.mpr ⟨hreaches, hzero.not.mpr hnonzero, by rw [hbyte]; exact hsmall⟩
    exact absurd (hcomplete.1 hok).1 (Nat.not_le.mpr hmany)
  · intro hcondition
    by_cases hok : (lmAirTxBegin sign tx message).2 = .ok
    · obtain ⟨hreaches, hnonzero, hsmall⟩ := begin_ok_iff.mp hok
      rw [hbyte, lmAirMaxFragments] at hsmall
      have hcount : divCeil (envelopeLen message) tx.profile.fragmentPayloadBytes.toNat ≤
          lmAirMaxFragments := by
        rcases hcondition hreaches with hle | hmod | hlarge
        · exact hle
        · exact absurd (hzero.mpr hmod) hnonzero
        · omega
      have hbegun := begun_of_begin (Prod.ext rfl hok :
        lmAirTxBegin sign tx message = ((lmAirTxBegin sign tx message).1, .ok))
      obtain ⟨transfer, -, -, -, rfl, hsigns, hsends⟩ := hbegun.sends hcount
      have hpolls := hsends.polls_to
      rw [Nat.sub_zero, ← List.range_eq_range'] at hpolls
      exact ⟨fun _ => ⟨hcount, _, _, hsigns, hpolls, transfer.cuts_completely⟩,
        fun hne => absurd hok hne⟩
    · obtain ⟨herror, hsame | hfailed⟩ := begin_refused hok
      · exact ⟨fun h => absurd h hok, fun _ => ⟨herror, Or.inl hsame⟩⟩
      · exact ⟨fun h => absurd h hok, fun _ => ⟨herror, Or.inr (poll_of_failed hfailed)⟩⟩

/-- With one payload byte in a frame, an envelope of 257 bytes is begun as one fragment. -/
theorem fragment_count_narrowed :
    ¬ ∀ (sign : Option LmAirSign) (tx : LmAirTx) (message : LmAirMessage),
      FragmentsCompletely sign tx message := by
  intro hclaim
  let message : LmAirMessage :=
    ⟨0, 0, 0, 0, 0, 0, Vector.replicate 16 0, List.replicate 209 0, 0, by decide +kernel⟩
  have hok : (lmAirTxBegin none (.fresh 0 0 ⟨0, 1, 0, 0⟩ rfl) message).2 = .ok :=
    begin_ok_iff.mpr ⟨⟨by decide, by decide, by decide, fun h => absurd rfl h,
      by decide +kernel⟩, by decide +kernel, by decide +kernel⟩
  exact absurd ((hclaim _ _ _).1 hok).1 (by decide +kernel)

end LatentMesh.AirC
