import LatentMesh.Lib.Bitmap
import LatentMesh.AirCore.Error

/-!
# The replay window

The 64-message window of `replay.rs` and the log it stands for: a set of accepted positions on the
integers, of which a sequence number is the residue next to the highest one (`unwrap`). See
`ReplayWindow.classify_eq` for the decisions and `ReplayWindow.Tracks.commit` for the update.
-/

namespace LatentMesh.AirCore

/-- The answers of `ReplayWindow::classify`. -/
inductive ReplayDecision where
  | accept
  | duplicate
  | tooOld
  deriving DecidableEq, Repr

/-- 64-message anti-replay window with `u16` wraparound. -/
structure ReplayWindow where
  initialized : Bool
  highest : UInt16
  bitmap : UInt64
  deriving DecidableEq, Repr

namespace ReplayWindow

/-- `ReplayWindow::new`. -/
def new : ReplayWindow := ⟨false, 0, 0⟩

/-- `ReplayWindow::classify`. -/
def classify (self : ReplayWindow) (sequence : UInt16) : ReplayDecision :=
  if ¬ self.initialized then .accept
  else
    let forward := sequence - self.highest
    if forward ≠ 0 ∧ forward < 0x8000 then .accept
    else if forward = 0 then .duplicate
    else
      let behind := self.highest - sequence
      if 64 ≤ behind then .tooOld
      else if self.bitmap &&& (1 <<< behind.toUInt64) ≠ 0 then .duplicate
      else .accept

/-- The window after `commit`, and what `commit` returns. -/
def commit (self : ReplayWindow) (sequence : UInt16) : ReplayWindow × Result Unit :=
  match self.classify sequence with
  | .duplicate => (self, .error .replay)
  | .tooOld => (self, .error .tooOld)
  | .accept =>
      if ¬ self.initialized then ({ initialized := true, highest := sequence, bitmap := 1 }, .ok ())
      else
        let forward := sequence - self.highest
        if forward ≠ 0 ∧ forward < 0x8000 then
          let bitmap := if 64 ≤ forward then 1 else (self.bitmap <<< forward.toUInt64) ||| 1
          ({ self with bitmap, highest := sequence }, .ok ())
        else
          let behind := self.highest - sequence
          ({ self with bitmap := self.bitmap ||| (1 <<< behind.toUInt64) }, .ok ())

/-! ## The log behind a window -/

/-- The position of a sequence number next to the top position: less than half the number space
ahead, or else behind. -/
def unwrap (top : Int) (sequence : UInt16) : Int :=
  let forward := (sequence.toNat - top) % 65536
  if forward < 32768 then top + forward else top + forward - 65536

/-- The window that keeps a log of accepted positions with the given top. -/
structure Tracks (window : ReplayWindow) (accepted : Int → Prop) (top : Int) : Prop where
  initialized : window.initialized = true
  top_mem : accepted top
  le_top : ∀ position, accepted position → position ≤ top
  highest : (window.highest.toNat : Int) = top % 65536
  bit : ∀ i < 64, window.bitmap.toNat.testBit i = true ↔ accepted (top - i)

/-- What a log decides about a position. -/
def decision (accepted : Int → Prop) [DecidablePred accepted] (top position : Int) :
    ReplayDecision :=
  if top < position then .accept
  else if position ≤ top - 64 then .tooOld
  else if accepted position then .duplicate
  else .accept

/-- A position is its sequence number modulo 65536. -/
theorem unwrap_mod (top : Int) (sequence : UInt16) :
    (unwrap top sequence) % 65536 = sequence.toNat := by
  have hlt := sequence.toNat_lt
  unfold unwrap
  dsimp only
  split <;> omega

/-- The residue of the position that counts on from a base. -/
theorem base_add_difference_mod (base sequence : UInt16) :
    (sequence.toNat : Int) = (base.toNat + (sequence - base).toNat) % 65536 := by
  have hsequence := sequence.toNat_lt
  have hbase := base.toNat_lt
  have hdifference := UInt16.toNat_sub sequence base
  omega

/-- A position within half the number space of the top is found from its residue. -/
theorem unwrap_eq {top position : Int} {sequence : UInt16}
    (hmod : (sequence.toNat : Int) = position % 65536) (hahead : position < top + 32768)
    (hbehind : top - 32768 ≤ position) : unwrap top sequence = position := by
  unfold unwrap
  dsimp only
  split <;> omega

/-- A bit of the window as a power of two. -/
theorem one_shift_to_nat {i : UInt16} (h : i.toNat < 64) :
    ((1 : UInt64) <<< i.toUInt64).toNat = 2 ^ i.toNat := by
  rw [← UInt16.toNat_toUInt64] at h
  rw [Lib.bit_to_nat h, UInt16.toNat_toUInt64]

/-- The test of a bit of the window. -/
theorem and_bit_ne_zero_iff (bitmap : UInt64) {i : UInt16} (h : i.toNat < 64) :
    bitmap &&& (1 <<< i.toUInt64) ≠ 0 ↔ bitmap.toNat.testBit i.toNat = true := by
  rw [Ne, ← UInt64.toNat_inj, UInt64.toNat_and, one_shift_to_nat h, Nat.and_two_pow]
  cases bitmap.toNat.testBit i.toNat <;> simp

/-- Setting a bit of the window sets no other. -/
theorem or_bit_test_bit (bitmap : UInt64) {i : UInt16} (h : i.toNat < 64) (j : Nat) :
    (bitmap ||| (1 <<< i.toUInt64)).toNat.testBit j = true ↔
      bitmap.toNat.testBit j = true ∨ j = i.toNat := by
  rw [← UInt16.toNat_toUInt64] at h
  rw [Lib.or_bit_iff bitmap h, UInt16.toNat_toUInt64]

/-- The window after its first number has only the lowest bit. -/
theorem one_test_bit (j : Nat) : (1 : UInt64).toNat.testBit j = decide (j = 0) := by
  rw [UInt64.toNat_one, ← Nat.pow_zero 2, Nat.testBit_two_pow]
  exact decide_eq_decide.mpr eq_comm

/-- The window that moved ahead has the lowest bit and those that were shifted. -/
theorem shift_or_one_test_bit (bitmap : UInt64) {i : UInt16} (h : i.toNat < 64) {j : Nat}
    (hj : j < 64) :
    ((bitmap <<< i.toUInt64) ||| 1).toNat.testBit j = true ↔
      j = 0 ∨ (i.toNat ≤ j ∧ bitmap.toNat.testBit (j - i.toNat) = true) := by
  have hshift : (bitmap <<< i.toUInt64).toNat.testBit j =
      (decide (i.toNat ≤ j) && bitmap.toNat.testBit (j - i.toNat)) := by
    rw [UInt64.toNat_shiftLeft, UInt16.toNat_toUInt64, Nat.mod_eq_of_lt h, Nat.testBit_mod_two_pow,
      Nat.testBit_shiftLeft, decide_eq_true hj, Bool.true_and]
  rw [UInt64.toNat_or, Nat.testBit_or, one_test_bit, hshift, Bool.or_eq_true, Bool.and_eq_true,
    decide_eq_true_eq, decide_eq_true_eq, or_comm]

variable {window next : ReplayWindow} {accepted : Int → Prop} {top : Int} {sequence : UInt16}

/-- The forward distance in the number space. -/
theorem Tracks.forward_eq (h : Tracks window accepted top) (sequence : UInt16) :
    ((sequence - window.highest).toNat : Int) = (sequence.toNat - top) % 65536 := by
  have hhighest := h.highest
  have hsequence := sequence.toNat_lt
  have htop := window.highest.toNat_lt
  rw [UInt16.toNat_sub]
  omega

/-- The distance behind the highest number, modulo 65536. -/
theorem Tracks.behind_eq (h : Tracks window accepted top) (sequence : UInt16) :
    ((window.highest - sequence).toNat : Int) = (top - sequence.toNat) % 65536 := by
  have hhighest := h.highest
  have hsequence := sequence.toNat_lt
  have htop := window.highest.toNat_lt
  rw [UInt16.toNat_sub]
  omega

/-- A sequence number is ahead of the window, or at its top, or behind. -/
theorem Tracks.ahead_iff (h : Tracks window accepted top) (sequence : UInt16) :
    (sequence - window.highest ≠ 0 ∧ sequence - window.highest < 0x8000) ↔
      top < unwrap top sequence := by
  have hforward := h.forward_eq sequence
  rw [Ne, ← UInt16.toNat_inj, UInt16.lt_iff_toNat_lt, UInt16.toNat_zero, unwrap]
  change _ ∧ _ < 32768 ↔ _
  split <;> omega

/-- The distance of a number that is ahead. -/
theorem Tracks.ahead_distance (h : Tracks window accepted top) {sequence : UInt16}
    (hahead : top < unwrap top sequence) :
    ((sequence - window.highest).toNat : Int) = unwrap top sequence - top := by
  have hforward := h.forward_eq sequence
  unfold unwrap at hahead ⊢
  dsimp only at hahead ⊢
  split at hahead <;> split <;> omega

/-- The highest number is that of the top position. -/
theorem Tracks.at_top_iff (h : Tracks window accepted top) (sequence : UInt16) :
    sequence - window.highest = 0 ↔ unwrap top sequence = top := by
  have hforward := h.forward_eq sequence
  rw [← UInt16.toNat_inj, UInt16.toNat_zero, unwrap]
  split <;> omega

/-- The distance of a number that is behind. -/
theorem Tracks.behind_distance (h : Tracks window accepted top) {sequence : UInt16}
    (hbehind : unwrap top sequence ≤ top) :
    ((window.highest - sequence).toNat : Int) = top - unwrap top sequence := by
  have hdistance := h.behind_eq sequence
  unfold unwrap at hbehind ⊢
  dsimp only at hbehind ⊢
  split at hbehind <;> split <;> omega

/-- The bit of a position that the window still covers. -/
theorem Tracks.bit_iff (h : Tracks window accepted top) {sequence : UInt16}
    (hbehind : unwrap top sequence ≤ top) (hcovered : top - 64 < unwrap top sequence) :
    window.bitmap &&& (1 <<< (window.highest - sequence).toUInt64) ≠ 0 ↔
      accepted (unwrap top sequence) := by
  have hdistance := h.behind_distance hbehind
  have hlt : (window.highest - sequence).toNat < 64 := by omega
  rw [and_bit_ne_zero_iff _ hlt, h.bit _ hlt, hdistance]
  exact iff_of_eq (congrArg accepted (by omega))

/-- A window decides like the log that it tracks. -/
theorem classify_eq [DecidablePred accepted] (h : Tracks window accepted top)
    (sequence : UInt16) :
    window.classify sequence = decision accepted top (unwrap top sequence) := by
  unfold classify decision
  rw [h.initialized]
  dsimp only
  rw [if_neg (by decide)]
  by_cases hahead : top < unwrap top sequence
  · rw [if_pos ((h.ahead_iff sequence).mpr hahead), if_pos hahead]
  · rw [if_neg ((h.ahead_iff sequence).not.mpr hahead), if_neg hahead]
    have hbehind := Int.not_lt.mp hahead
    have hdistance := h.behind_distance hbehind
    by_cases htop : unwrap top sequence = top
    · rw [if_pos ((h.at_top_iff sequence).mpr htop), if_neg (by omega), htop, if_pos h.top_mem]
    · rw [if_neg ((h.at_top_iff sequence).not.mpr htop)]
      have hold : 64 ≤ window.highest - sequence ↔ unwrap top sequence ≤ top - 64 := by
        rw [UInt16.le_iff_toNat_le]
        change 64 ≤ _ ↔ _
        omega
      by_cases hcovered : unwrap top sequence ≤ top - 64
      · rw [if_pos (hold.mpr hcovered), if_pos hcovered]
      · rw [if_neg (hold.not.mpr hcovered), if_neg hcovered]
        exact if_congr (h.bit_iff hbehind (Int.not_le.mp hcovered)) rfl rfl

/-- A window tracks a set of positions, however it is described. -/
theorem Tracks.congr (h : Tracks window accepted top) {other : Int → Prop}
    (hiff : ∀ position, accepted position ↔ other position) : Tracks window other top := by
  have heq : accepted = other := funext fun position => propext (hiff position)
  rwa [← heq]

/-- The first commit starts a log. -/
theorem commit_first (hnew : window.initialized = false) {position : Int}
    (hposition : (sequence.toNat : Int) = position % 65536)
    (hcommit : window.commit sequence = (next, .ok ())) :
    Tracks next (fun other => other = position) position := by
  simp only [commit, classify, hnew, Bool.false_eq_true, not_false_eq_true, if_true] at hcommit
  cases hcommit
  refine ⟨rfl, rfl, fun other hother => Int.le_of_eq hother, hposition, fun i hi => ?_⟩
  rw [one_test_bit, decide_eq_true_eq]
  omega

/-- `commit` accepts only what `classify` accepts. -/
theorem accept_of_commit (hcommit : window.commit sequence = (next, .ok ())) :
    window.classify sequence = .accept := by
  cases hdecision : window.classify sequence with
  | accept => rfl
  | duplicate => simp [ReplayWindow.commit, hdecision] at hcommit
  | tooOld => simp [ReplayWindow.commit, hdecision] at hcommit

/-- An accepted sequence number has a new position, and the log takes it in. -/
theorem Tracks.commit (h : Tracks window accepted top)
    (hcommit : window.commit sequence = (next, .ok ())) :
    ¬ accepted (unwrap top sequence) ∧
      Tracks next (fun other => other = unwrap top sequence ∨ accepted other)
        (max top (unwrap top sequence)) := by
  classical
  have haccept := accept_of_commit hcommit
  have hdecision := (classify_eq h sequence).symm.trans haccept
  simp only [ReplayWindow.commit, haccept, h.initialized, not_true, if_false] at hcommit
  by_cases hahead : top < unwrap top sequence
  · have hdistance := h.ahead_distance hahead
    have hnew : ¬ accepted (unwrap top sequence) := fun hmem =>
      Int.not_lt.mpr (h.le_top _ hmem) hahead
    rw [if_pos ((h.ahead_iff sequence).mpr hahead)] at hcommit
    cases hcommit
    rw [Int.max_eq_right (Int.le_of_lt hahead)]
    refine ⟨hnew, rfl, Or.inl rfl, fun other hother => ?_, (unwrap_mod top sequence).symm,
      fun i hi => ?_⟩
    · rcases hother with rfl | hother
      · exact Int.le_refl _
      · exact Int.le_trans (h.le_top _ hother) (Int.le_of_lt hahead)
    · dsimp only
      by_cases hfar : 64 ≤ sequence - window.highest
      · -- every old position leaves the window
        have hjump : 64 ≤ (sequence - window.highest).toNat := hfar
        have hgone : ¬ accepted (unwrap top sequence - i) := fun hmem => by
          have hle := h.le_top _ hmem
          omega
        rw [if_pos hfar, one_test_bit, decide_eq_true_eq]
        simp only [hgone, or_false]
        omega
      · have hjump : (sequence - window.highest).toNat < 64 :=
          Nat.not_le.mp (UInt16.le_iff_toNat_le.not.mp hfar)
        rw [if_neg hfar, shift_or_one_test_bit _ hjump hi]
        refine or_congr (by omega) ?_
        by_cases hle : (sequence - window.highest).toNat ≤ i
        · rw [h.bit _ (by omega)]
          simp only [hle, true_and]
          exact iff_of_eq (congrArg accepted (by omega))
        · refine iff_of_false (fun hbit => hle hbit.1) fun hmem => ?_
          have htop := h.le_top _ hmem
          omega
  · have hbehind := Int.not_lt.mp hahead
    have hdistance := h.behind_distance hbehind
    rw [decision, if_neg hahead] at hdecision
    split at hdecision
    · cases hdecision
    · rename_i hcovered
      split at hdecision
      · cases hdecision
      · rename_i hnew
        have hlt : (window.highest - sequence).toNat < 64 := by omega
        rw [if_neg ((h.ahead_iff sequence).not.mpr hahead)] at hcommit
        cases hcommit
        rw [Int.max_eq_left hbehind]
        refine ⟨hnew, rfl, Or.inr h.top_mem, fun other hother => ?_, h.highest,
          fun i hi => ?_⟩
        · rcases hother with rfl | hother
          · exact hbehind
          · exact h.le_top _ hother
        · dsimp only
          rw [or_bit_test_bit _ hlt, h.bit i hi, or_comm]
          exact or_congr_left (by omega)

/-- A refused sequence number leaves the window as it is. -/
theorem commit_error {error : AirError} (hcommit : window.commit sequence = (next, .error error)) :
    next = window := by
  unfold ReplayWindow.commit at hcommit
  split at hcommit
  · cases hcommit
    rfl
  · cases hcommit
    rfl
  · dsimp only at hcommit
    split at hcommit
    · cases hcommit
    · split at hcommit <;> cases hcommit

/-- `commit` accepts what `classify` accepts. -/
theorem commit_of_accept (h : window.classify sequence = .accept) :
    ∃ next, window.commit sequence = (next, .ok ()) := by
  simp only [ReplayWindow.commit, h]
  split
  · exact ⟨_, rfl⟩
  · split <;> exact ⟨_, rfl⟩

end ReplayWindow

end LatentMesh.AirCore
