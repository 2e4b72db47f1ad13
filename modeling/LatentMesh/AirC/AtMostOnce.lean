import LatentMesh.AirC.FrameCodec
import LatentMesh.AirC.Ingest

/-!
# At most one delivery

A stream that keeps its replay entry remembers every sequence number of its deliveries
(`Remembers`), so a second delivery needs the entry to be replaced in between. An entry is replaced
only when more streams than the table has entries deliver messages (`find_entry_kept`). See
`delivers_at_most_once`, and `replaced_entry_redelivers` for a run in which a message is delivered
twice.
-/

namespace LatentMesh.AirC

open LatentMesh.Lib LatentMesh.AirCore LatentMesh.AirCore.ReplayWindow

/-! ## What a stream remembers -/

/-- A sequence number is less than half the number space ahead of a base. -/
def InSpan (base sequence : UInt16) : Prop := (sequence - base).toNat < 32768

/-- The position of a sequence number in the span from a base on. -/
def spanPosition (base sequence : UInt16) : Int := base.toNat + (sequence - base).toNat

/-- A sequence number is its position modulo 65536. -/
theorem span_position_mod (base sequence : UInt16) :
    (sequence.toNat : Int) = spanPosition base sequence % 65536 :=
  base_add_difference_mod base sequence

/-- Next to a position in a span, the positions of the span are found from their residues. -/
theorem unwrap_span {base top sequence : UInt16} (htop : InSpan base top)
    (hsequence : InSpan base sequence) :
    unwrap (spanPosition base top) sequence = spanPosition base sequence := by
  unfold InSpan at htop hsequence
  apply unwrap_eq (span_position_mod base sequence)
  · simp only [spanPosition]
    omega
  · simp only [spanPosition]
    omega

/-- The positions of some sequence numbers of a span. -/
def SeenPosition (base : UInt16) (seen : List UInt16) (position : Int) : Prop :=
  ∃ sequence ∈ seen, position = spanPosition base sequence

/-- The positions that were seen after one more sequence number. -/
theorem seen_position_cons (base sequence : UInt16) (seen : List UInt16) (position : Int) :
    SeenPosition base (sequence :: seen) position ↔
      position = spanPosition base sequence ∨ SeenPosition base seen position := by
  simp only [SeenPosition, List.mem_cons, exists_eq_or_imp]

/-- The entry of a stream remembers the sequence numbers seen. -/
structure Remembers (rx : LmAirRx) (streamId base : UInt16) (seen : List UInt16) : Prop where
  span : ∀ sequence ∈ seen, InSpan base sequence
  window : (rx.findEntry streamId = none ∧ seen = []) ∨
    ∃ top, Tracks (rx.streamWindow streamId) (SeenPosition base seen) top

namespace Remembers

variable {rx rx' : LmAirRx} {streamId base sequence : UInt16} {seen : List UInt16}
  {delivery : Option LmAirDelivery}

/-- A stream without an entry remembers nothing. -/
theorem forgotten (h : rx.findEntry streamId = none) : Remembers rx streamId base [] :=
  ⟨fun _ hmem => absurd hmem List.not_mem_nil, Or.inl ⟨h, rfl⟩⟩

/-- What is remembered of a stream depends on its entry only. -/
theorem congr (h : Remembers rx streamId base seen)
    (hentry : rx'.findEntry streamId = rx.findEntry streamId) :
    Remembers rx' streamId base seen := by
  refine ⟨h.span, ?_⟩
  rw [LmAirRx.streamWindow, hentry]
  exact h.window

/-- The position of a sequence number of the span next to what is remembered. -/
theorem unwrap_top (h : Remembers rx streamId base seen) {top : Int}
    (htracks : Tracks (rx.streamWindow streamId) (SeenPosition base seen) top)
    (hsequence : InSpan base sequence) : unwrap top sequence = spanPosition base sequence := by
  obtain ⟨last, hlast, rfl⟩ := htracks.top_mem
  exact unwrap_span (h.span last hlast) hsequence

/-- What a stream remembers is a replay. -/
theorem is_replay (h : Remembers rx streamId base seen) (hsound : rx.TableSound)
    (hmem : sequence ∈ seen) : isReplay rx streamId sequence = true := by
  classical
  rw [← Bool.not_eq_false, LmAirRx.is_replay_eq_false_iff hsound]
  rcases h.window with ⟨_, hnil⟩ | ⟨top, htracks⟩
  · rw [hnil] at hmem
    cases hmem
  · have hseen : SeenPosition base seen (spanPosition base sequence) := ⟨sequence, hmem, rfl⟩
    have hle := htracks.le_top _ hseen
    rw [classify_eq htracks, h.unwrap_top htracks (h.span sequence hmem), decision,
      if_neg (Int.not_lt.mpr hle), if_pos hseen]
    split <;> decide

/-- A delivery is remembered on top of what was remembered. -/
theorem deliver (h : Remembers rx streamId base seen) (hsound : rx.TableSound)
    (hspan : InSpan base sequence) (hfresh : isReplay rx streamId sequence = false)
    (hwindow : rx'.streamWindow streamId = ((rx.streamWindow streamId).commit sequence).1) :
    Remembers rx' streamId base (sequence :: seen) := by
  have haccept := (LmAirRx.is_replay_eq_false_iff hsound streamId sequence).mp hfresh
  obtain ⟨next, hcommit⟩ := commit_of_accept haccept
  rw [hcommit] at hwindow
  refine ⟨List.forall_mem_cons.mpr ⟨hspan, h.span⟩, Or.inr ?_⟩
  rw [hwindow]
  rcases h.window with ⟨hnone, rfl⟩ | ⟨top, htracks⟩
  · have hnew : (rx.streamWindow streamId).initialized = false := by
      rw [LmAirRx.streamWindow, hnone]
      rfl
    have hfirst := commit_first hnew (span_position_mod base sequence) hcommit
    refine ⟨_, hfirst.congr fun position => ?_⟩
    rw [seen_position_cons]
    exact (or_iff_left fun hseen => by obtain ⟨_, hmem, _⟩ := hseen; cases hmem).symm
  · obtain ⟨_, hnext⟩ := htracks.commit hcommit
    rw [h.unwrap_top htracks hspan] at hnext
    exact ⟨_, hnext.congr fun position => (seen_position_cons base sequence seen position).symm⟩

/-- As long as the stream keeps its entry, a call adds to what it remembers. -/
theorem step (h : Remembers rx streamId base seen) (hsound : rx.TableSound)
    (heffect : ReplayEffect rx rx' delivery)
    (hspan : ∀ message, delivery = some message → message.streamId = streamId →
      InSpan base message.sequence) :
    ∃ seen', Remembers rx' streamId base seen' ∧ (rx'.findEntry streamId ≠ none →
      (∀ sequence ∈ seen, sequence ∈ seen') ∧
      ∀ message, delivery = some message → message.streamId = streamId →
        message.sequence ∈ seen') := by
  cases heffect with
  | quiet hreplay =>
      refine ⟨seen, h.congr (congrFun (LmAirRx.find_entry_congr hreplay) streamId),
        fun _ => ⟨fun _ hmem => hmem, fun _ hnone => by cases hnone⟩⟩
  | @deliver before message hbefore hfresh hreplay =>
      have hsound' := hsound.congr hbefore
      have hentry := congrFun (LmAirRx.find_entry_congr hreplay) streamId
      have hbeforeEntry := congrFun (LmAirRx.find_entry_congr hbefore) streamId
      by_cases hstream : message.streamId = streamId
      · subst hstream
        obtain ⟨entry, hfind, hwindow⟩ :=
          LmAirRx.stream_window_commit hsound' message.streamId message.sequence
        have hstep : rx'.streamWindow message.streamId =
            ((rx.streamWindow message.streamId).commit message.sequence).1 := by
          rw [LmAirRx.streamWindow, hentry, hfind]
          rw [LmAirRx.streamWindow, hbeforeEntry] at hwindow
          exact hwindow
        refine ⟨_, h.deliver hsound (hspan message rfl rfl) hfresh hstep, fun _ =>
          ⟨fun _ hmem => List.mem_cons_of_mem _ hmem, fun delivered heq _ => ?_⟩⟩
        cases heq
        exact List.mem_cons_self ..
      · have hother : ∀ delivered, some message = some delivered →
            delivered.streamId = streamId → delivered.sequence ∈ seen := by
          rintro delivered heq hsame
          cases heq
          exact absurd hsame hstream
        rcases LmAirRx.find_entry_commit_other hsound' (Ne.symm hstream) message.sequence
          with hsame | hlost
        · exact ⟨seen, h.congr (hentry.trans (hsame.trans hbeforeEntry)),
            fun _ => ⟨fun _ hmem => hmem, hother⟩⟩
        · exact ⟨[], forgotten (hentry.trans hlost), fun hkept => absurd (hentry.trans hlost) hkept⟩

end Remembers

/-! ## The size of the table -/

/-- The entries in use are for some of the streams. -/
def LmAirRx.UsedFor (rx : LmAirRx) (streams : List UInt16) : Prop :=
  ∀ streamId i, rx.Serves streamId i → streamId ∈ streams

/-- A commit for one of the streams uses the table for these streams only. -/
theorem LmAirRx.UsedFor.commit {rx : LmAirRx} {streams : List UInt16} (h : rx.UsedFor streams)
    (hsound : rx.TableSound) {streamId : UInt16} (hstream : streamId ∈ streams)
    (sequence : UInt16) : (commitReplay rx streamId sequence).UsedFor streams := by
  obtain ⟨k, entry, hget, _, hentry, _, _, _⟩ :=
    LmAirRx.commit_replay_spec hsound streamId sequence
  intro other i hserves
  rw [LmAirRx.Serves, hget] at hserves
  by_cases hi : i = k
  · rw [if_pos hi] at hserves
    rw [← hserves.2, hentry]
    exact hstream
  · rw [if_neg hi] at hserves
    exact h other i hserves

/-- A full table for other streams needs more streams than it has entries. -/
theorem streams_of_full_table {rx : LmAirRx} {streams : List UInt16} (h : rx.UsedFor streams)
    (hsound : rx.TableSound) {streamId : UInt16} (hstream : streamId ∈ streams)
    (hnone : findReplay rx streamId = none)
    (hfull : ∀ i, (rx.replay.get i).used = true) :
    lmAirRxReplayStreams < streams.length := by
  let others := (List.finRange lmAirRxReplayStreams).map fun i => (rx.replay.get i).streamId
  have hserves : ∀ i, rx.Serves (rx.replay.get i).streamId i := fun i => ⟨hfull i, rfl⟩
  have hnodup : others.Nodup := (List.nodup_finRange _).map fun i j hij =>
    hsound.distinct _ i j (hserves i) (hij ▸ hserves j)
  have hnew : streamId ∉ others := by
    intro hmem
    obtain ⟨i, _, rfl⟩ := List.mem_map.mp hmem
    exact LmAirRx.find_replay_eq_none_iff.mp hnone i (hserves i)
  have hsubset : streamId :: others ⊆ streams := by
    intro other hmem
    rcases List.mem_cons.mp hmem with rfl | hmem
    · exact hstream
    · obtain ⟨i, _, rfl⟩ := List.mem_map.mp hmem
      exact h _ i (hserves i)
  have hlength := (List.subperm_of_subset (List.nodup_cons.mpr ⟨hnew, hnodup⟩) hsubset).length_le
  rw [List.length_cons, List.length_map, List.length_finRange] at hlength
  exact hlength

/-- While there are no more streams than entries, no stream loses its entry. -/
theorem find_entry_kept {rx : LmAirRx} {streams : List UInt16} (h : rx.UsedFor streams)
    (hsound : rx.TableSound) (hfew : streams.length ≤ lmAirRxReplayStreams)
    {streamId : UInt16} (hstream : streamId ∈ streams) (sequence : UInt16) {other : UInt16}
    (hother : rx.findEntry other ≠ none) :
    (commitReplay rx streamId sequence).findEntry other ≠ none := by
  intro hlost
  rw [LmAirRx.findEntry, Option.map_eq_none_iff] at hlost
  obtain ⟨j, hfind⟩ : ∃ j, findReplay rx other = some j :=
    Option.ne_none_iff_exists'.mp fun hnone => hother (by rw [LmAirRx.findEntry, hnone]; rfl)
  have hserves := LmAirRx.serves_of_find hfind
  obtain ⟨k, entry, htable, hcases⟩ := LmAirRx.commit_replay_cases rx streamId sequence
  -- the entry of the lost stream is the one that is written
  have hjk : j = k := by
    by_contra hne
    refine LmAirRx.find_replay_eq_none_iff.mp hlost j ?_
    rw [LmAirRx.Serves, htable, vector_set_get, if_neg hne]
    exact hserves
  subst hjk
  rcases hcases with ⟨hfound, rfl⟩ | ⟨hnone, holdest, _⟩
  · refine LmAirRx.find_replay_eq_none_iff.mp hlost j ?_
    rw [LmAirRx.Serves, htable, vector_set_get, if_pos rfl, LmAirRx.commit_used,
      LmAirRx.commit_stream_id]
    exact hserves
  · have hfull := @used_of_oldest_used _ _ _ _ (fun i : Fin lmAirRxReplayStreams =>
      rx.replay[i].used) (fun i => rx.replay[i].age) _ (holdest ▸ hserves.1)
    exact Nat.not_lt.mpr hfew (streams_of_full_table h hsound hstream hnone hfull)

/-! ## Runs -/

/-- A call of `lm_air_rx_ingest_wire`: the callbacks as they answer in it, and the wire buffer. -/
abbrev WireCall := LmAirRxCallbacks × List UInt8

/-- A fresh receiver after some calls. -/
def rxAfter (calls : List WireCall) : LmAirRx :=
  calls.foldl (fun rx call => (lmAirRxIngestWire call.1 rx call.2).1) lmAirRxInit

/-- What a call of a run passes to the receive callback. -/
def deliveredAt (calls : List WireCall) (k : Nat) : Option LmAirDelivery :=
  calls[k]?.bind fun call => (lmAirRxIngestWire call.1 (rxAfter (calls.take k)) call.2).2.2

/-- On each stream, the valid frames have sequence numbers in less than half the number space. -/
def SpansHalf (calls : List WireCall) : Prop :=
  ∀ streamId, ∃ base, ∀ call ∈ calls, ∀ frame, (lmAirFrameDecode call.2).2 = some frame →
    frame.streamId = streamId → InSpan base frame.sequence

/-- The receiver after one more call. -/
theorem rx_after_succ {calls : List WireCall} {k : Nat} {call : WireCall}
    (h : calls[k]? = some call) :
    rxAfter (calls.take (k + 1)) =
      (lmAirRxIngestWire call.1 (rxAfter (calls.take k)) call.2).1 := by
  rw [rxAfter, List.take_add_one, h, List.foldl_append]
  rfl

/-- What a call of a run does to the replay table. -/
theorem call_effect (calls : List WireCall) (k : Nat) :
    ReplayEffect (rxAfter (calls.take k)) (rxAfter (calls.take (k + 1))) (deliveredAt calls k) := by
  cases hcall : calls[k]? with
  | none =>
      have hend := List.getElem?_eq_none_iff.mp hcall
      rw [deliveredAt, hcall, List.take_of_length_le hend, List.take_of_length_le (by omega)]
      exact .quiet rfl
  | some call =>
      rw [deliveredAt, rx_after_succ hcall, hcall]
      exact (ingest_wire_effect _ _ _).1

/-- A call delivers a message of the stream and sequence number of its frame. -/
theorem delivered_in_span {calls : List WireCall} (hspan : SpansHalf calls) (streamId : UInt16) :
    ∃ base, ∀ k delivery, deliveredAt calls k = some delivery → delivery.streamId = streamId →
      InSpan base delivery.sequence := by
  obtain ⟨base, hbase⟩ := hspan streamId
  refine ⟨base, fun k delivery hdelivery hstream => ?_⟩
  obtain ⟨call, hcall, hdelivered⟩ := Option.bind_eq_some_iff.mp hdelivery
  obtain ⟨frame, hframe, hframeStream, hsequence⟩ :=
    (ingest_wire_effect _ _ _).2 delivery hdelivered
  rw [hsequence]
  exact hbase call (List.mem_of_getElem? hcall) frame hframe (hframeStream.symm.trans hstream)

/-- The replay table is sound after every call. -/
theorem table_sound_after (calls : List WireCall) (k : Nat) :
    (rxAfter (calls.take k)).TableSound := by
  induction k with
  | zero => exact LmAirRx.table_sound_init
  | succ k ih =>
      have heffect := call_effect calls k
      generalize deliveredAt calls k = delivery at heffect
      cases heffect with
      | quiet hreplay => exact ih.congr hreplay
      | deliver hbefore hfresh hreplay => exact ((ih.congr hbefore).commit _ _).congr hreplay

/-- The streams and sequence numbers that the first calls of a run deliver. -/
def deliveredKeys (calls : List WireCall) (k : Nat) : List (UInt16 × UInt16) :=
  (List.range k).filterMap fun i =>
    (deliveredAt calls i).map fun delivery => (delivery.streamId, delivery.sequence)

section

variable {calls : List WireCall} {streamId base : UInt16}

/-- After every call the entry of a stream remembers some sequence numbers. -/
theorem remembers_after
    (hspan : ∀ k delivery, deliveredAt calls k = some delivery → delivery.streamId = streamId →
      InSpan base delivery.sequence) (k : Nat) :
    ∃ seen, Remembers (rxAfter (calls.take k)) streamId base seen := by
  induction k with
  | zero => exact ⟨[], Remembers.forgotten (LmAirRx.find_entry_init streamId)⟩
  | succ k ih =>
      obtain ⟨seen, hseen⟩ := ih
      obtain ⟨seen', hnext, _⟩ :=
        hseen.step (table_sound_after calls k) (call_effect calls k) (hspan k)
      exact ⟨seen', hnext⟩

/-- A delivery stays remembered as long as the stream keeps its entry. -/
theorem remembers_delivery
    (hspan : ∀ k delivery, deliveredAt calls k = some delivery → delivery.streamId = streamId →
      InSpan base delivery.sequence) {i j : Nat} {delivery : LmAirDelivery}
    (hdelivery : deliveredAt calls i = some delivery) (hstream : delivery.streamId = streamId)
    (hij : i < j)
    (hkept : ∀ k, i < k → k ≤ j → (rxAfter (calls.take k)).findEntry streamId ≠ none) :
    ∃ seen, Remembers (rxAfter (calls.take j)) streamId base seen ∧ delivery.sequence ∈ seen := by
  induction j, hij using Nat.le_induction with
  | base =>
      obtain ⟨seen, hseen⟩ := remembers_after hspan i
      obtain ⟨seen', hnext, hadded⟩ :=
        hseen.step (table_sound_after calls i) (call_effect calls i) (hspan i)
      exact ⟨seen', hnext, (hadded (hkept _ (Nat.lt_succ_self i) le_rfl)).2 _ hdelivery hstream⟩
  | succ j hij ih =>
      obtain ⟨seen, hseen, hmem⟩ := ih fun k hik hkj => hkept k hik (Nat.le_succ_of_le hkj)
      obtain ⟨seen', hnext, hadded⟩ :=
        hseen.step (table_sound_after calls j) (call_effect calls j) (hspan j)
      exact ⟨seen', hnext, (hadded (hkept _ (Nat.lt_succ_of_lt hij) le_rfl)).1 _ hmem⟩

end

/-- The entries in use are for the streams that delivered messages. -/
theorem used_for_after {calls : List WireCall} {streams : List UInt16} {k : Nat}
    (hstreams : ∀ j < k, ∀ delivery, deliveredAt calls j = some delivery →
      delivery.streamId ∈ streams) : (rxAfter (calls.take k)).UsedFor streams := by
  induction k with
  | zero => exact fun streamId i hserves =>
      absurd hserves (LmAirRx.find_replay_eq_none_iff.mp
        (Option.map_eq_none_iff.mp (LmAirRx.find_entry_init streamId)) i)
  | succ k ih =>
      have hbefore := ih fun j hj => hstreams j (Nat.lt_succ_of_lt hj)
      have hlast := hstreams k (Nat.lt_succ_self k)
      have hsound := table_sound_after calls k
      have heffect := call_effect calls k
      generalize deliveredAt calls k = delivery at hlast heffect
      intro streamId i hserves
      cases heffect with
      | quiet hreplay =>
          rw [LmAirRx.Serves, hreplay] at hserves
          exact hbefore streamId i hserves
      | @deliver middle message hmiddle hfresh hreplay =>
          have hused : middle.UsedFor streams := fun other j hother => by
            rw [LmAirRx.Serves, hmiddle] at hother
            exact hbefore other j hother
          rw [LmAirRx.Serves, hreplay] at hserves
          exact hused.commit (hsound.congr hmiddle) (hlast message rfl) _ streamId i hserves

/-- While the messages come from no more streams than the table has entries, a stream keeps its
entry. -/
theorem kept_after {calls : List WireCall} {streams : List UInt16} {j : Nat}
    (hstreams : ∀ k < j, ∀ delivery, deliveredAt calls k = some delivery →
      delivery.streamId ∈ streams) (hfew : streams.length ≤ lmAirRxReplayStreams)
    {i : Nat} {delivery : LmAirDelivery} (hdelivery : deliveredAt calls i = some delivery)
    {k : Nat} (hik : i < k) (hkj : k ≤ j) :
    (rxAfter (calls.take k)).findEntry delivery.streamId ≠ none := by
  induction k, hik using Nat.le_induction with
  | base =>
      have heffect := call_effect calls i
      rw [hdelivery] at heffect
      cases heffect with
      | deliver hbefore hfresh hreplay =>
          obtain ⟨entry, hentry, _⟩ := LmAirRx.find_entry_commit
            ((table_sound_after calls i).congr hbefore) delivery.streamId delivery.sequence
          rw [LmAirRx.find_entry_congr hreplay, hentry]
          exact Option.some_ne_none entry
  | succ k hik ih =>
      have hbefore := ih (Nat.le_of_succ_le hkj)
      have hused := used_for_after fun m hm =>
        hstreams m (Nat.lt_of_lt_of_le hm (Nat.le_of_succ_le hkj))
      have hlast := hstreams k hkj
      have hsound := table_sound_after calls k
      have heffect := call_effect calls k
      generalize deliveredAt calls k = message at hlast heffect
      cases heffect with
      | quiet hreplay => rwa [LmAirRx.find_entry_congr hreplay]
      | @deliver middle message hmiddle hfresh hreplay =>
          rw [LmAirRx.find_entry_congr hreplay]
          rw [← LmAirRx.find_entry_congr hmiddle] at hbefore
          refine find_entry_kept (fun other m hother => ?_) (hsound.congr hmiddle) hfew
            (hlast message rfl) _ hbefore
          rw [LmAirRx.Serves, hmiddle] at hother
          exact hused other m hother

/-- The receive callback is invoked twice for a stream and a sequence number only when the replay
entry of the stream is replaced in between, and only when messages of more streams than the table
has entries have been delivered. -/
theorem delivers_at_most_once {calls : List WireCall} (hspan : SpansHalf calls) {i j : Nat}
    (hij : i < j) {first second : LmAirDelivery} (hfirst : deliveredAt calls i = some first)
    (hsecond : deliveredAt calls j = some second)
    (hsame : first.streamId = second.streamId ∧ first.sequence = second.sequence) :
    (∃ k, i < k ∧ k ≤ j ∧ (rxAfter (calls.take k)).findEntry first.streamId = none) ∧
      ∀ streams : List UInt16, (∀ k < j, ∀ delivery, deliveredAt calls k = some delivery →
        delivery.streamId ∈ streams) → lmAirRxReplayStreams < streams.length := by
  have hreplaced : ∃ k, i < k ∧ k ≤ j ∧
      (rxAfter (calls.take k)).findEntry first.streamId = none := by
    by_contra hnever
    have hkept : ∀ k, i < k → k ≤ j →
        (rxAfter (calls.take k)).findEntry first.streamId ≠ none :=
      fun k hik hkj hnone => hnever ⟨k, hik, hkj, hnone⟩
    obtain ⟨base, hbase⟩ := delivered_in_span hspan first.streamId
    obtain ⟨seen, hseen, hmem⟩ := remembers_delivery hbase hfirst rfl hij hkept
    have hreplay := hseen.is_replay (table_sound_after calls j) hmem
    have heffect := call_effect calls j
    rw [hsecond] at heffect
    cases heffect with
    | deliver hbefore hfresh _ =>
        rw [← hsame.1, ← hsame.2, hreplay] at hfresh
        cases hfresh
  refine ⟨hreplaced, fun streams hstreams => ?_⟩
  by_contra hfew
  obtain ⟨k, hik, hkj, hnone⟩ := hreplaced
  exact kept_after hstreams (Nat.not_lt.mp hfew) hfirst hik hkj hnone

/-! ## A replaced entry -/

/-- An unsigned message with an empty body, in one fragment. -/
def emptyMessageFrame (streamId : UInt16) : LmAirFrame :=
  { profile := 0, flags := 0, streamId, sequence := 0, fragmentIndex := 0, fragmentCount := 1
    classId := 0, priority := 0, stateTag := 0, payloadLen := 48
    payload := payloadArray ([0x4c, 0x4d, 0x53, 0x31, 1] ++ List.replicate 43 0)
    payload_size := payload_array_length _ }

/-- The message of stream 0, then those of eight other streams, then the first one again. -/
def replacedEntryCalls : List WireCall :=
  [0, 1, 2, 3, 4, 5, 6, 7, 8, 0].map fun streamId =>
    (⟨none, fun _ => .ok⟩, (lmAirFrameEncode (emptyMessageFrame streamId) (fun _ => 0) 256).2)

/-- The sequence numbers of the calls span less than half of their range. -/
theorem replaced_entry_calls_span : SpansHalf replacedEntryCalls := by
  intro streamId
  refine ⟨0, fun call hcall frame hframe _ => ?_⟩
  obtain ⟨stream, _, rfl⟩ := List.mem_map.mp hcall
  have hencode : lmAirFrameEncode (emptyMessageFrame stream) (fun _ => 0) 256 =
      (.ok, (lmAirFrameEncode (emptyMessageFrame stream) (fun _ => 0) 256).2) :=
    (lm_air_frame_encode_eq_ok_iff _ _ _).mpr ⟨rfl, show 16 + 48 ≤ 256 by decide, rfl⟩
  rw [decode_encode hencode (show 48 ≤ 240 by decide)] at hframe
  cases hframe
  exact show ((0 : UInt16) - 0).toNat < 32768 by decide

/-- The first message is delivered again once its entry has been replaced. -/
theorem replaced_entry_calls_deliver :
    (deliveredAt replacedEntryCalls 0).map (fun d => (d.streamId, d.sequence)) = some (0, 0) ∧
      (deliveredAt replacedEntryCalls 9).map (fun d => (d.streamId, d.sequence)) = some (0, 0) := by
  decide +kernel

/-- Nine streams deliver, and the first message is delivered again. -/
theorem replaced_entry_redelivers :
    ¬ ∀ calls, SpansHalf calls → ∀ i j first second, i < j → deliveredAt calls i = some first →
      deliveredAt calls j = some second →
      ¬ (first.streamId = second.streamId ∧ first.sequence = second.sequence) := by
  intro hnever
  obtain ⟨hfirst, hsecond⟩ := replaced_entry_calls_deliver
  obtain ⟨first, hfirst, hfirstKey⟩ := Option.map_eq_some_iff.mp hfirst
  obtain ⟨second, hsecond, hsecondKey⟩ := Option.map_eq_some_iff.mp hsecond
  have hkey := Prod.mk.inj (hfirstKey.trans hsecondKey.symm)
  exact hnever _ replaced_entry_calls_span 0 9 first second (by decide) hfirst hsecond hkey

/-- The second delivery comes after the entry of the stream is gone. -/
theorem delivers_at_most_once_replaced : ∃ k, 0 < k ∧ k ≤ 9 ∧
    (rxAfter (replacedEntryCalls.take k)).findEntry 0 = none := by
  obtain ⟨hfirst, hsecond⟩ := replaced_entry_calls_deliver
  obtain ⟨first, hfirst, hfirstKey⟩ := Option.map_eq_some_iff.mp hfirst
  obtain ⟨second, hsecond, hsecondKey⟩ := Option.map_eq_some_iff.mp hsecond
  have hkey := Prod.mk.inj (hfirstKey.trans hsecondKey.symm)
  have hreplaced :=
    (delivers_at_most_once replaced_entry_calls_span (by decide) hfirst hsecond hkey).1
  rwa [(Prod.mk.inj hfirstKey).1] at hreplaced

end LatentMesh.AirC
