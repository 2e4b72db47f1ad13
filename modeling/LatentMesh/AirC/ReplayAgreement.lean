import LatentMesh.AirC.Rx
import LatentMesh.AirCore.Replay

/-!
# The C replay table and the Rust replay window

An entry of the replay table decides and updates like a `ReplayWindow` with the same `highest` and
`bitmap` (`LmAirReplayEntry.refuses_eq_false_iff`, `LmAirReplayEntry.commit_window`), and a commit
on one stream changes the entry of another stream only by replacing it (`find_entry_commit_other`).
See `replay_filters_agree`.
-/

namespace LatentMesh.AirC

open LatentMesh.Lib LatentMesh.AirCore LatentMesh.AirCore.ReplayWindow

/-! ## Sequence numbers -/

/-- A sequence number is newer when it is less than half of the range ahead. -/
theorem sequence_delta_pos_iff (sequence reference : UInt16) :
    0 < sequenceDelta sequence reference ↔
      sequence - reference ≠ 0 ∧ sequence - reference < 0x8000 := by
  have hlt := (sequence - reference).toNat_lt
  have hzero : sequence - reference = 0 ↔ (sequence - reference).toNat = 0 :=
    UInt16.toNat_inj.symm
  have hhalf : sequence - reference < 0x8000 ↔ (sequence - reference).toNat < 32768 :=
    UInt16.lt_iff_toNat_lt
  unfold sequenceDelta
  dsimp only
  by_cases hne : sequence - reference = 0
  · rw [if_pos hne]
    exact iff_of_false (Int.lt_irrefl 0) fun h => h.1 hne
  · rw [if_neg hne]
    have hpos := hzero.not.mp hne
    split
    · rename_i hlow
      exact iff_of_true (by omega) ⟨hne, hlow⟩
    · rename_i hhigh
      have hover := hhalf.not.mp hhigh
      exact iff_of_false (by omega) fun h => hhigh h.2

/-- A positive delta is the forward distance. -/
theorem sequence_delta_of_pos {sequence reference : UInt16}
    (h : 0 < sequenceDelta sequence reference) :
    sequenceDelta sequence reference = ((sequence - reference).toNat : Int) := by
  obtain ⟨hne, hlt⟩ := (sequence_delta_pos_iff sequence reference).mp h
  unfold sequenceDelta
  dsimp only
  rw [if_neg hne, if_pos hlt]

/-- The age of a sequence number that is not ahead is the distance behind. -/
theorem sequence_age_of_not_pos {sequence reference : UInt16}
    (h : ¬ 0 < sequenceDelta sequence reference) :
    UInt16.ofInt (-sequenceDelta sequence reference) = reference - sequence := by
  have hsequence := sequence.toNat_lt
  have hreference := reference.toNat_lt
  apply UInt16.toNat_inj.mp
  have hforward := UInt16.toNat_sub sequence reference
  have hzero : sequence - reference = 0 ↔ (sequence - reference).toNat = 0 :=
    UInt16.toNat_inj.symm
  rw [UInt16.ofInt, UInt16.toNat_ofNat', UInt16.toNat_sub]
  rw [sequence_delta_pos_iff, not_and] at h
  unfold sequenceDelta
  dsimp only
  by_cases hne : sequence - reference = 0
  · rw [if_pos hne]
    have hdiff := hzero.mp hne
    omega
  · rw [if_neg hne, if_neg (h hne)]
    have hdiff := hzero.not.mp hne
    omega

/-! ## One entry -/

/-- The window that an entry in use stands for. -/
def LmAirReplayEntry.window (entry : LmAirReplayEntry) : ReplayWindow :=
  ⟨true, entry.highest, entry.bitmap⟩

/-- The highest sequence number of an entry counts as seen. -/
def LmAirReplayEntry.MarksHighest (entry : LmAirReplayEntry) : Prop :=
  entry.bitmap.toNat.testBit 0 = true

namespace LmAirReplayEntry

variable {entry : LmAirReplayEntry}

/-- The sibling's answer for the window of an entry. -/
theorem window_classify (sequence : UInt16) :
    entry.window.classify sequence =
      if sequence - entry.highest ≠ 0 ∧ sequence - entry.highest < 0x8000 then .accept
      else if sequence - entry.highest = 0 then .duplicate
      else if 64 ≤ entry.highest - sequence then .tooOld
      else if entry.bitmap &&& (1 <<< (entry.highest - sequence).toUInt64) ≠ 0 then .duplicate
      else .accept :=
  if_neg (not_not.mpr rfl)

/-- The sibling's window after a commit. -/
theorem window_commit {sequence : UInt16} (h : entry.window.classify sequence = .accept) :
    (entry.window.commit sequence).1 =
      if sequence - entry.highest ≠ 0 ∧ sequence - entry.highest < 0x8000 then
        ⟨true, sequence, if 64 ≤ sequence - entry.highest then 1
          else (entry.bitmap <<< (sequence - entry.highest).toUInt64) ||| 1⟩
      else ⟨true, entry.highest,
        entry.bitmap ||| (1 <<< (entry.highest - sequence).toUInt64)⟩ := by
  have hinitialized : ¬ ¬ entry.window.initialized = true := not_not.mpr rfl
  rw [ReplayWindow.commit, h]
  dsimp only
  rw [if_neg hinitialized]
  by_cases hforward : sequence - entry.highest ≠ 0 ∧ sequence - entry.highest < 0x8000
  · rw [if_pos hforward]
    exact congrArg Prod.fst (if_pos hforward)
  · rw [if_neg hforward]
    exact congrArg Prod.fst (if_neg hforward)

/-- An entry refuses what the window does not accept. -/
theorem refuses_eq_false_iff (h : entry.MarksHighest) (sequence : UInt16) :
    entry.refuses sequence = false ↔ entry.window.classify sequence = .accept := by
  rw [window_classify]
  unfold refuses
  dsimp only
  by_cases hahead : 0 < sequenceDelta sequence entry.highest
  · rw [if_pos hahead, if_pos ((sequence_delta_pos_iff _ _).mp hahead)]
    exact iff_of_true rfl rfl
  · rw [if_neg hahead, if_neg ((sequence_delta_pos_iff _ _).not.mp hahead),
      sequence_age_of_not_pos hahead]
    by_cases hsame : sequence - entry.highest = 0
    · -- the highest sequence number has age 0
      obtain rfl : sequence = entry.highest := by
        rw [← UInt16.sub_add_cancel sequence entry.highest, hsame, UInt16.zero_add]
      have hbit : entry.bitmap &&& (1 <<< (entry.highest - entry.highest).toUInt64) ≠ 0 := by
        rw [UInt16.sub_self]
        exact (and_bit_ne_zero_iff entry.bitmap (i := 0) (by decide)).mpr h
      rw [if_pos hsame, if_neg (by rw [UInt16.sub_self]; decide), decide_eq_true hbit]
      exact iff_of_false (by decide) (by decide)
    · rw [if_neg hsame]
      by_cases hold : 64 ≤ entry.highest - sequence
      · rw [if_pos hold, if_pos hold]
        exact iff_of_false (by decide) (by decide)
      · rw [if_neg hold, if_neg hold]
        by_cases hseen : entry.bitmap &&& (1 <<< (entry.highest - sequence).toUInt64) ≠ 0
        · rw [if_pos hseen, decide_eq_true hseen]
          exact iff_of_false (by decide) (by decide)
        · rw [if_neg hseen, decide_eq_false hseen]
          exact iff_of_true rfl rfl

/-- Setting a bit that is set changes nothing. -/
theorem or_bit_of_and_bit {bitmap : UInt64} {i : UInt16} (hi : i.toNat < 64)
    (h : bitmap &&& (1 <<< i.toUInt64) ≠ 0) : bitmap ||| (1 <<< i.toUInt64) = bitmap := by
  apply UInt64.toNat_inj.mp
  apply Nat.eq_of_testBit_eq
  intro j
  rw [Bool.eq_iff_iff, or_bit_test_bit bitmap hi]
  refine or_iff_left_of_imp fun hj => ?_
  rw [hj]
  exact (and_bit_ne_zero_iff bitmap hi).mp h

/-- An entry takes in a sequence number like the window, which keeps what it refuses. -/
theorem commit_window (h : entry.MarksHighest) (sequence : UInt16) (clock : UInt32) :
    (entry.commit sequence clock).window = (entry.window.commit sequence).1 := by
  have hagree := refuses_eq_false_iff h sequence
  unfold LmAirReplayEntry.commit
  dsimp only
  by_cases hahead : 0 < sequenceDelta sequence entry.highest
  · have hforward := (sequence_delta_pos_iff _ _).mp hahead
    have hdelta := sequence_delta_of_pos hahead
    have haccept : entry.window.classify sequence = .accept := by
      rw [← hagree, refuses, if_pos hahead]
    have hfar : 64 ≤ sequenceDelta sequence entry.highest ↔ 64 ≤ sequence - entry.highest := by
      rw [hdelta, UInt16.le_iff_toNat_le]
      exact Int.ofNat_le
    have hshift : UInt64.ofInt (sequenceDelta sequence entry.highest) =
        (sequence - entry.highest).toUInt64 := by
      have hlt := (sequence - entry.highest).toNat_lt
      apply UInt64.toNat_inj.mp
      rw [hdelta, UInt64.ofInt, UInt64.toNat_ofNat', UInt16.toNat_toUInt64]
      omega
    rw [if_pos hahead, window_commit haccept, hshift, if_pos hforward]
    exact congrArg (ReplayWindow.mk true sequence) (if_congr hfar rfl rfl)
  · rw [if_neg hahead, sequence_age_of_not_pos hahead]
    by_cases hrefused : entry.refuses sequence = false
    · have haccept := hagree.mp hrefused
      rw [window_commit haccept, if_neg ((sequence_delta_pos_iff _ _).not.mp hahead)]
      have hnear : entry.highest - sequence < 64 := by
        rw [← UInt16.not_le]
        intro hold
        rw [refuses, if_neg hahead, sequence_age_of_not_pos hahead, if_pos hold] at hrefused
        cases hrefused
      exact congrArg (ReplayWindow.mk true entry.highest) (if_pos hnear)
    · have hkeep : (entry.window.commit sequence).1 = entry.window := by
        cases hcommit : entry.window.commit sequence with
        | mk next result =>
            cases result with
            | ok value => exact absurd (hagree.mpr (accept_of_commit hcommit)) hrefused
            | error error => exact commit_error hcommit
      rw [hkeep]
      refine congrArg (ReplayWindow.mk true entry.highest) ?_
      split
      · rename_i hnear
        rw [refuses, if_neg hahead, sequence_age_of_not_pos hahead,
          if_neg (UInt16.not_le.mpr hnear), decide_eq_false_iff_not, not_not] at hrefused
        exact or_bit_of_and_bit (UInt16.lt_iff_toNat_lt.mp hnear) hrefused
      · rfl

/-- A commit marks the highest sequence number. -/
theorem marks_highest_commit (h : entry.MarksHighest) (sequence : UInt16) (clock : UInt32) :
    (entry.commit sequence clock).MarksHighest := by
  unfold LmAirReplayEntry.commit MarksHighest
  dsimp only
  by_cases hahead : 0 < sequenceDelta sequence entry.highest
  · rw [if_pos hahead]
    dsimp only
    split
    · rfl
    · rw [UInt64.toNat_or, Nat.testBit_or, one_test_bit]
      exact Bool.or_true _
  · rw [if_neg hahead]
    dsimp only
    split
    · rw [UInt64.toNat_or, Nat.testBit_or, h]
      exact Bool.true_or _
    · exact h

end LmAirReplayEntry

/-! ## The table -/

namespace LmAirRx

variable {rx rx' : LmAirRx} {streamId other sequence : UInt16}
  {i : Fin lmAirRxReplayStreams}

/-- An entry of the replay table is in use for a stream. -/
def Serves (rx : LmAirRx) (streamId : UInt16) (i : Fin lmAirRxReplayStreams) : Prop :=
  rx.replay[i].used = true ∧ rx.replay[i].streamId = streamId

/-- A replay table has one entry at most for a stream, and each counts its highest sequence number
as seen. -/
structure TableSound (rx : LmAirRx) : Prop where
  distinct : ∀ streamId i j, rx.Serves streamId i → rx.Serves streamId j → i = j
  marks : ∀ i : Fin lmAirRxReplayStreams, rx.replay[i].used = true → rx.replay[i].MarksHighest

/-- The test of the search loop says that an entry serves the stream. -/
theorem serves_iff : (rx.replay[i].used && rx.replay[i].streamId == streamId) = true ↔
    rx.Serves streamId i := by
  rw [Bool.and_eq_true, beq_iff_eq, Serves]

/-- No entry is found when none serves the stream. -/
theorem find_replay_eq_none_iff :
    findReplay rx streamId = none ↔ ∀ i, ¬ rx.Serves streamId i := by
  rw [findReplay, first_index_eq_none_iff]
  exact forall_congr' fun i => by rw [← serves_iff, Bool.not_eq_true]; rfl

/-- The entry that is found serves the stream. -/
theorem serves_of_find (h : findReplay rx streamId = some i) : rx.Serves streamId i :=
  serves_iff.mp (first_index_spec h)

/-- In a sound table the entry of a stream is the one that is found. -/
theorem find_replay_eq_some_iff (h : rx.TableSound) :
    findReplay rx streamId = some i ↔ rx.Serves streamId i := by
  refine (first_index_eq_some_iff fun i j hi hj => ?_).trans serves_iff
  exact h.distinct streamId i j (serves_iff.mp hi) (serves_iff.mp hj)

/-- The entry of a stream. -/
def findEntry (rx : LmAirRx) (streamId : UInt16) : Option LmAirReplayEntry :=
  (findReplay rx streamId).map fun i => rx.replay[i]

/-- The entry of a stream depends on the replay table only. -/
theorem find_entry_congr (h : rx'.replay = rx.replay) : rx'.findEntry = rx.findEntry := by
  funext streamId
  rw [findEntry, findEntry, findReplay, findReplay, h]

/-- `is_replay` asks the entry of the stream. -/
theorem is_replay_eq (rx : LmAirRx) (streamId sequence : UInt16) :
    isReplay rx streamId sequence =
      match rx.findEntry streamId with
      | none => false
      | some entry => entry.refuses sequence := by
  rw [isReplay, findEntry]
  cases findReplay rx streamId with
  | none => rfl
  | some i => rfl

/-- What a commit does to the table: it writes one entry, which is the one of the stream or, when
there is none, the oldest. -/
theorem commit_replay_cases (rx : LmAirRx) (streamId sequence : UInt16) :
    ∃ (k : Fin lmAirRxReplayStreams) (entry : LmAirReplayEntry),
      (commitReplay rx streamId sequence).replay = rx.replay.set k entry ∧
      ((findReplay rx streamId = some k ∧ entry = rx.replay[k].commit sequence (rx.clock + 1)) ∨
        (findReplay rx streamId = none ∧
          k = oldestFrom (fun i => rx.replay[i].used) (fun i => rx.replay[i].age)
            (List.finRange lmAirRxReplayStreams) (0 : Fin 8) ∧
          entry = ⟨true, streamId, sequence, 1, rx.clock + 1⟩)) := by
  unfold commitReplay
  cases hfind : findReplay rx streamId with
  | none => exact ⟨_, _, rfl, Or.inr ⟨rfl, rfl, rfl⟩⟩
  | some k => exact ⟨_, _, rfl, Or.inl ⟨rfl, rfl⟩⟩

@[simp] theorem commit_used (entry : LmAirReplayEntry) (sequence : UInt16) (clock : UInt32) :
    (entry.commit sequence clock).used = entry.used := by
  unfold LmAirReplayEntry.commit
  dsimp only
  split <;> rfl

@[simp] theorem commit_stream_id (entry : LmAirReplayEntry) (sequence : UInt16) (clock : UInt32) :
    (entry.commit sequence clock).streamId = entry.streamId := by
  unfold LmAirReplayEntry.commit
  dsimp only
  split <;> rfl

/-- The entry that a commit writes serves the stream, and no other entry did. -/
theorem commit_replay_spec (h : rx.TableSound) (streamId sequence : UInt16) :
    ∃ (k : Fin lmAirRxReplayStreams) (entry : LmAirReplayEntry),
      (∀ i : Fin lmAirRxReplayStreams, (commitReplay rx streamId sequence).replay[i] =
        if i = k then entry else rx.replay[i]) ∧
      entry.used = true ∧ entry.streamId = streamId ∧ entry.MarksHighest ∧
      (∀ j, rx.Serves streamId j → j = k) ∧
      entry.window = match rx.findEntry streamId with
        | none => ⟨true, sequence, 1⟩
        | some old => (old.window.commit sequence).1 := by
  obtain ⟨k, entry, htable, ⟨hfind, rfl⟩ | ⟨hfind, _, rfl⟩⟩ :=
    commit_replay_cases rx streamId sequence
  · have hserves := serves_of_find hfind
    have hmarks := h.marks k hserves.1
    refine ⟨k, _, fun i => by rw [htable, vector_set_get], (commit_used _ _ _).trans hserves.1,
      (commit_stream_id _ _ _).trans hserves.2,
      LmAirReplayEntry.marks_highest_commit hmarks _ _,
      fun j hj => h.distinct streamId j k hj hserves, ?_⟩
    rw [findEntry, hfind]
    exact LmAirReplayEntry.commit_window hmarks _ _
  · refine ⟨k, ⟨true, streamId, sequence, 1, rx.clock + 1⟩,
      fun i => by rw [htable, vector_set_get], rfl, rfl,
      show (1 : UInt64).toNat.testBit 0 = true by decide,
      fun j hj => absurd hj (find_replay_eq_none_iff.mp hfind j), ?_⟩
    rw [findEntry, hfind]
    rfl

/-- A commit keeps the replay table sound. -/
theorem TableSound.commit (h : rx.TableSound) (streamId sequence : UInt16) :
    (commitReplay rx streamId sequence).TableSound := by
  obtain ⟨k, entry, hget, hused, hstream, hmarks, hserves, _⟩ :=
    commit_replay_spec h streamId sequence
  have hother : ∀ stream j, (commitReplay rx streamId sequence).Serves stream j → j ≠ k →
      rx.Serves stream j ∧ stream ≠ streamId := by
    intro stream j hj hne
    rw [Serves, hget, if_neg hne] at hj
    refine ⟨hj, ?_⟩
    rintro rfl
    exact hne (hserves j hj)
  have hwritten : ∀ stream, (commitReplay rx streamId sequence).Serves stream k →
      stream = streamId := by
    intro stream hk
    rw [Serves, hget, if_pos rfl] at hk
    exact hk.2.symm.trans hstream
  constructor
  · intro stream i j hi hj
    by_cases hik : i = k
    · by_cases hjk : j = k
      · rw [hik, hjk]
      · subst hik
        exact absurd (hwritten stream hi) (hother stream j hj hjk).2
    · by_cases hjk : j = k
      · subst hjk
        exact absurd (hwritten stream hj) (hother stream i hi hik).2
      · exact h.distinct stream i j (hother stream i hi hik).1 (hother stream j hj hjk).1
  · intro i hi
    rw [hget] at hi ⊢
    by_cases hik : i = k
    · rw [if_pos hik]
      exact hmarks
    · rw [if_neg hik] at hi ⊢
      exact h.marks i hi

/-- A commit leaves the stream with the entry that the window says. -/
theorem find_entry_commit (h : rx.TableSound) (streamId sequence : UInt16) :
    ∃ entry, (commitReplay rx streamId sequence).findEntry streamId = some entry ∧
      entry.window = match rx.findEntry streamId with
        | none => ⟨true, sequence, 1⟩
        | some old => (old.window.commit sequence).1 := by
  obtain ⟨k, entry, hget, hused, hstream, _, _, hwindow⟩ :=
    commit_replay_spec h streamId sequence
  refine ⟨entry, ?_, hwindow⟩
  have hentry : (commitReplay rx streamId sequence).replay[k] = entry := (hget k).trans (if_pos rfl)
  have hfind := (find_replay_eq_some_iff (h.commit streamId sequence)).mpr
    (show (commitReplay rx streamId sequence).Serves streamId k from
      ⟨hentry ▸ hused, hentry ▸ hstream⟩)
  rw [findEntry, hfind]
  exact congrArg some hentry

/-- A commit on another stream leaves an entry as it is, or replaces it. -/
theorem find_entry_commit_other (h : rx.TableSound) (hne : other ≠ streamId)
    (sequence : UInt16) :
    (commitReplay rx streamId sequence).findEntry other = rx.findEntry other ∨
      (commitReplay rx streamId sequence).findEntry other = none := by
  obtain ⟨k, entry, hget, _, hstream, _, _, _⟩ := commit_replay_spec h streamId sequence
  cases hfind : findReplay (commitReplay rx streamId sequence) other with
  | none => exact Or.inr (by rw [findEntry, hfind]; rfl)
  | some j =>
      have hserves := serves_of_find hfind
      have hjk : j ≠ k := by
        rintro rfl
        rw [Serves, hget, if_pos rfl] at hserves
        exact hne (hserves.2.symm.trans hstream)
      have hsame : (commitReplay rx streamId sequence).replay[j] = rx.replay[j] := by
        rw [hget, if_neg hjk]
      rw [Serves, hsame] at hserves
      refine Or.inl ?_
      rw [findEntry, findEntry, hfind, (find_replay_eq_some_iff h).mpr hserves]
      exact congrArg some hsame

/-- The window of a stream, which is new while the stream has no entry. -/
def streamWindow (rx : LmAirRx) (streamId : UInt16) : ReplayWindow :=
  match rx.findEntry streamId with
  | none => ReplayWindow.new
  | some entry => entry.window

/-- The entries of a sound table mark their highest sequence number. -/
theorem marks_of_find_entry (h : rx.TableSound) {entry : LmAirReplayEntry}
    (hentry : rx.findEntry streamId = some entry) : entry.MarksHighest := by
  obtain ⟨i, hfind, rfl⟩ := Option.map_eq_some_iff.mp hentry
  exact h.marks i (serves_of_find hfind).1

/-- The table refuses what the window of the stream does not accept. -/
theorem is_replay_eq_false_iff (h : rx.TableSound) (streamId sequence : UInt16) :
    isReplay rx streamId sequence = false ↔
      (rx.streamWindow streamId).classify sequence = .accept := by
  rw [is_replay_eq, streamWindow]
  cases hentry : rx.findEntry streamId with
  | none => exact iff_of_true rfl rfl
  | some entry =>
      exact LmAirReplayEntry.refuses_eq_false_iff (marks_of_find_entry h hentry) sequence

/-- A commit takes the window of the stream one step further. -/
theorem stream_window_commit (h : rx.TableSound) (streamId sequence : UInt16) :
    ∃ entry, (commitReplay rx streamId sequence).findEntry streamId = some entry ∧
      entry.window = ((rx.streamWindow streamId).commit sequence).1 := by
  obtain ⟨entry, hentry, hwindow⟩ := find_entry_commit h streamId sequence
  refine ⟨entry, hentry, hwindow.trans ?_⟩
  rw [streamWindow]
  cases rx.findEntry streamId with
  | none => rfl
  | some old => rfl

/-- The replay table of a new receiver is sound. -/
theorem table_sound_init : lmAirRxInit.TableSound := by
  have hunused : ∀ i : Fin lmAirRxReplayStreams, lmAirRxInit.replay[i].used = false := fun i => by
    simp [lmAirRxInit]
  refine ⟨fun streamId i j hi _ => ?_, fun i hi => ?_⟩
  · exact absurd hi.1 (by rw [hunused i]; exact Bool.false_ne_true)
  · exact absurd hi (by rw [hunused i]; exact Bool.false_ne_true)

/-- A new receiver has no entry. -/
theorem find_entry_init (streamId : UInt16) : lmAirRxInit.findEntry streamId = none := by
  rw [findEntry, Option.map_eq_none_iff, find_replay_eq_none_iff]
  rintro i ⟨hused, _⟩
  simp [lmAirRxInit] at hused

/-- Soundness depends on the replay table only. -/
theorem TableSound.congr (h : rx.TableSound) (hreplay : rx'.replay = rx.replay) :
    rx'.TableSound := by
  have hserves : ∀ stream i, rx'.Serves stream i ↔ rx.Serves stream i := fun stream i => by
    rw [Serves, Serves, hreplay]
  refine ⟨fun stream i j hi hj => ?_, fun i hi => ?_⟩
  · exact h.distinct stream i j ((hserves stream i).mp hi) ((hserves stream j).mp hj)
  · rw [hreplay] at hi ⊢
    exact h.marks i hi

end LmAirRx

/-! ## Histories -/

open LmAirRx

/-- A receiver whose replay table took in a history of streams and sequence numbers, in which
`streamId` never lost its entry. What leaves the table as it is may change the rest of the
receiver. -/
inductive KeptHistory (streamId : UInt16) : LmAirRx → List (UInt16 × UInt16) → Prop where
  | init : KeptHistory streamId lmAirRxInit []
  | quiet {rx rx' : LmAirRx} {history : List (UInt16 × UInt16)}
      (h : KeptHistory streamId rx history) (hreplay : rx'.replay = rx.replay) :
      KeptHistory streamId rx' history
  | commit {rx : LmAirRx} {history : List (UInt16 × UInt16)} (h : KeptHistory streamId rx history)
      (other sequence : UInt16)
      (hkept : rx.findEntry streamId ≠ none →
        (commitReplay rx other sequence).findEntry streamId ≠ none) :
      KeptHistory streamId (commitReplay rx other sequence) (history ++ [(other, sequence)])

/-- The Rust window after the part of a history that is about one stream. -/
def windowAfter (history : List (UInt16 × UInt16)) (streamId : UInt16) : ReplayWindow :=
  ((history.filter fun entry => entry.1 = streamId).map Prod.snd).foldl
    (fun window sequence => (window.commit sequence).1) ReplayWindow.new

/-- A commit advances the window of its stream. -/
theorem window_after_same (history : List (UInt16 × UInt16)) (streamId sequence : UInt16) :
    windowAfter (history ++ [(streamId, sequence)]) streamId =
      ((windowAfter history streamId).commit sequence).1 := by
  simp [windowAfter]

/-- A commit leaves the windows of other streams as they are. -/
theorem window_after_other (history : List (UInt16 × UInt16)) {streamId other : UInt16}
    (h : other ≠ streamId) (sequence : UInt16) :
    windowAfter (history ++ [(other, sequence)]) streamId = windowAfter history streamId := by
  simp [windowAfter, h]

/-- The entry of a kept stream is the window of its history. -/
theorem KeptHistory.stream_window {streamId : UInt16} {rx : LmAirRx}
    {history : List (UInt16 × UInt16)} (h : KeptHistory streamId rx history) :
    rx.TableSound ∧ rx.streamWindow streamId = windowAfter history streamId := by
  induction h with
  | init =>
      refine ⟨table_sound_init, ?_⟩
      rw [streamWindow, find_entry_init]
      rfl
  | quiet h hreplay ih =>
      refine ⟨ih.1.congr hreplay, ?_⟩
      rw [streamWindow, find_entry_congr hreplay]
      exact ih.2
  | commit h other sequence hkept ih =>
      obtain ⟨hsound, hwindow⟩ := ih
      refine ⟨hsound.commit other sequence, ?_⟩
      by_cases hother : other = streamId
      · subst hother
        obtain ⟨entry, hentry, hnext⟩ := stream_window_commit hsound other sequence
        rw [streamWindow, hentry, window_after_same, ← hwindow]
        exact hnext
      · rw [window_after_other _ hother, ← hwindow, streamWindow, streamWindow]
        rcases find_entry_commit_other hsound (Ne.symm hother) sequence with hsame | hlost
        · rw [hsame]
        · have hnone : _ = none := by_contra fun hsome => hkept hsome hlost
          rw [hlost, hnone]

/-- The replay table filters a stream like a Rust window. After a history in which the stream never
lost its entry, `is_replay` lets through what `classify` accepts, and after `commit_replay` the
entry of the stream has the `highest` and the `bitmap` of the window after `commit`. -/
theorem replay_filters_agree {streamId : UInt16} {rx : LmAirRx}
    {history : List (UInt16 × UInt16)} (h : KeptHistory streamId rx history)
    (sequence : UInt16) :
    (isReplay rx streamId sequence = false ↔
      (windowAfter history streamId).classify sequence = .accept) ∧
    ∃ entry, (commitReplay rx streamId sequence).findEntry streamId = some entry ∧
      entry.highest = ((windowAfter history streamId).commit sequence).1.highest ∧
      entry.bitmap = ((windowAfter history streamId).commit sequence).1.bitmap := by
  obtain ⟨hsound, hwindow⟩ := h.stream_window
  obtain ⟨entry, hentry, hnext⟩ := stream_window_commit hsound streamId sequence
  rw [hwindow] at hnext
  refine ⟨hwindow ▸ is_replay_eq_false_iff hsound streamId sequence, entry, hentry, ?_, ?_⟩
  · rw [← hnext]
    rfl
  · rw [← hnext]
    rfl

/-- Sequence numbers 65535 and 0 on stream 7 with stream 9 in between: 0 is one ahead, so the two
filters keep 65535 as seen and have room for 65534. -/
theorem replay_filters_agree_wrap :
    KeptHistory 7 (commitReplay (commitReplay (commitReplay lmAirRxInit 7 65535) 9 3) 7 0)
        [(7, 65535), (9, 3), (7, 0)] ∧
      isReplay (commitReplay (commitReplay (commitReplay lmAirRxInit 7 65535) 9 3) 7 0) 7 65535 =
        true ∧
      isReplay (commitReplay (commitReplay (commitReplay lmAirRxInit 7 65535) 9 3) 7 0) 7 65534 =
        false := by
  have hhistory : KeptHistory 7
      (commitReplay (commitReplay (commitReplay lmAirRxInit 7 65535) 9 3) 7 0)
      [(7, 65535), (9, 3), (7, 0)] := by
    refine ((KeptHistory.init.commit 7 65535 ?_).commit 9 3 ?_).commit 7 0 ?_
    · exact fun h => absurd (find_entry_init 7) h
    · decide
    · decide
  refine ⟨hhistory, ?_, ?_⟩
  · rw [← Bool.not_eq_false, (replay_filters_agree hhistory 65535).1]
    decide
  · rw [(replay_filters_agree hhistory 65534).1]
    decide

end LatentMesh.AirC
