import LatentMesh.Core.Binary32

/-!
# Confidence in thousandths

A rule travels with its confidence as a number of thousandths. The number that is sent is the one
that its confidence is rounded to (`of_milli_milli_iff`), and a confidence that was received is sent
as the number that it came from (`milli_of_milli`).
-/

namespace LatentMesh.Federation

open LatentMesh.Lib LatentMesh.Core

/-- `(confidence.clamp(0.0, 1.0) * 1000.0).round() as u16`. -/
def milli (confidence : Binary32) : UInt16 :=
  (((confidence.clamp (.finite 0) (.finite 1)).scale 1000).round).toU16

/-- `f32::from(confidence_milli) / 1000.0`. -/
def ofMilli (confidenceMilli : UInt16) : Binary32 :=
  (Binary32.finite confidenceMilli.toNat).scale (1 / 1000)

/-- A confidence rounded to thousandths. -/
def thousandths (confidence : Binary32) : Binary32 :=
  ((confidence.scale 1000).round).scale (1 / 1000)

/-- The nearest thousandth of a confidence lies in the unit interval. -/
def NearUnit (confidence : Binary32) : Prop :=
  ∃ n : ℕ, n ≤ 1000 ∧ (confidence.scale 1000).round = .finite n

/-- Rounding does not take a number that is not negative below zero. -/
theorem nearest32_nonneg {x : ℚ} (h : 0 ≤ x) : 0 ≤ nearest32 x := by
  have hpos : (0 : ℚ) < 2 ^ lastPlace x := zpow_pos two_pos _
  refine mul_nonneg ?_ hpos.le
  exact_mod_cast round_even_nonneg (div_nonneg h hpos.le)

/-- A number that is not positive is not rounded above zero. -/
theorem nearest32_nonpos {x : ℚ} (h : x ≤ 0) : nearest32 x ≤ 0 := by
  have hpos : (0 : ℚ) < 2 ^ lastPlace x := zpow_pos two_pos _
  refine mul_nonpos_of_nonpos_of_nonneg ?_ hpos.le
  exact_mod_cast round_even_nonpos (div_nonpos_of_nonpos_of_nonneg h hpos.le)

/-- Rounding takes a number off by a part in a thousand thousand, and by next to nothing at zero. -/
theorem abs_nearest32_sub_le_add (x : ℚ) :
    |nearest32 x - x| ≤ |x| / 1000000 + 1 / 1000000 := by
  have habs := abs_nonneg x
  refine (abs_nearest32_sub_le x).trans (max_le ?_ ?_)
  · have hscale : |x| / 2 ^ 24 ≤ |x| / 1000000 :=
      div_le_div_of_nonneg_left habs (by norm_num) (by norm_num)
    linarith
  · have hsmall : (1 / 2 ^ 150 : ℚ) ≤ 1 / 1000000 := by norm_num
    have hpart : 0 ≤ |x| / 1000000 := div_nonneg habs (by norm_num)
    linarith

/-- The thousandths of a number of the unit interval. -/
def nearestMilli (value : ℚ) : ℤ := roundAway (nearest32 (value * 1000))

/-- The scaled confidence is rounded to thousandths. -/
theorem scale_round {value : ℚ} (hlow : -1 ≤ value) (hhigh : value ≤ 1001 / 1000) :
    ((Binary32.finite value).scale 1000).round = .finite (nearestMilli value) := by
  have habs : |value * 1000| ≤ 1001 := abs_le.mpr ⟨by linarith, by linarith⟩
  show (Binary32.ofRat (value * 1000)).round = _
  rw [of_rat_eq_finite habs]
  rfl

/-- The thousandths of a confidence lie between 0 and 1000. -/
theorem nearest_milli_range {value : ℚ} (hlow : 0 ≤ value) (hhigh : value ≤ 1) :
    0 ≤ nearestMilli value ∧ nearestMilli value ≤ 1000 := by
  have hround := abs_le.mp (abs_round_away_sub_le (nearest32 (value * 1000)))
  have hnonneg : 0 ≤ nearest32 (value * 1000) := nearest32_nonneg (by linarith)
  have herror := (abs_le.mp (abs_nearest32_sub_le_add (value * 1000))).2
  rw [abs_of_nonneg (by linarith)] at herror
  have hgt : (-1 : ℚ) < nearestMilli value := by
    rw [nearestMilli]
    linarith
  have hlt : (nearestMilli value : ℚ) < 1001 := by
    rw [nearestMilli]
    linarith
  have hgt' : -1 < nearestMilli value := by exact_mod_cast hgt
  have hlt' : nearestMilli value < 1001 := by exact_mod_cast hlt
  omega

/-- The unit interval's part of a number. -/
def clampUnit (value : ℚ) : ℚ := max 0 (min value 1)

/-- A clamped number lies between zero and one. -/
theorem clamp_unit_range (value : ℚ) : 0 ≤ clampUnit value ∧ clampUnit value ≤ 1 :=
  ⟨le_max_left _ _, max_le zero_le_one (min_le_right _ _)⟩

/-- A finite number is clamped as a rational. -/
theorem clamp_finite (value : ℚ) :
    (Binary32.finite value).clamp (.finite 0) (.finite 1) = .finite (clampUnit value) := by
  have hlt : ∀ (left right : ℚ) (first second : Binary32),
      (if (Binary32.finite left).lt (.finite right) then first else second) =
        if left < right then first else second := by
    intro left right first second
    exact if_congr decide_eq_true_iff rfl rfl
  unfold Binary32.clamp clampUnit
  dsimp only
  rw [hlt]
  by_cases hneg : value < 0
  · rw [if_pos hneg, hlt, if_neg (by norm_num), min_eq_left (by linarith), max_eq_left hneg.le]
  · rw [if_neg hneg, hlt]
    by_cases hlarge : 1 < value
    · rw [if_pos hlarge, min_eq_right hlarge.le, max_eq_right zero_le_one]
    · rw [if_neg hlarge, min_eq_left (not_lt.mp hlarge), max_eq_right (not_lt.mp hneg)]

/-- What is sent for a number is the thousandths of its part in the unit interval. -/
theorem milli_finite (value : ℚ) :
    ((milli (.finite value)).toNat : ℤ) = nearestMilli (clampUnit value) := by
  obtain ⟨hlow, hhigh⟩ := clamp_unit_range value
  obtain ⟨hmin, hmax⟩ := nearest_milli_range hlow hhigh
  rw [milli, clamp_finite, scale_round (by linarith) (by linarith)]
  show ((UInt16.ofNat (min 0xffff ⌊((nearestMilli _ : ℤ) : ℚ)⌋.toNat)).toNat : ℤ) = _
  rw [Int.floor_intCast, UInt16.toNat_ofNat_of_lt' (show min 0xffff _ < 65536 by omega)]
  omega

/-- No confidence has more than 1000 thousandths. -/
theorem milli_le (confidence : Binary32) : milli confidence ≤ 1000 := by
  have hfinite : ∀ value, milli (.finite value) ≤ 1000 := by
    intro value
    have hvalue := milli_finite value
    have hrange := nearest_milli_range (clamp_unit_range value).1 (clamp_unit_range value).2
    rw [UInt16.le_iff_toNat_le]
    show (milli (.finite value)).toNat ≤ 1000
    omega
  cases confidence with
  | nan => exact UInt16.le_iff_toNat_le.mpr (Nat.zero_le _)
  | infinite negative =>
      cases negative
      · exact hfinite 1
      · exact hfinite 0
  | finite value => exact hfinite value

/-- The confidence of some thousandths. -/
theorem of_milli_eq {confidenceMilli : UInt16} (h : confidenceMilli ≤ 1000) :
    ofMilli confidenceMilli = .finite (nearest32 (confidenceMilli.toNat * (1 / 1000))) := by
  have hmax : (confidenceMilli.toNat : ℚ) ≤ 1000 := by
    exact_mod_cast UInt16.le_iff_toNat_le.mp h
  have hmin : (0 : ℚ) ≤ confidenceMilli.toNat := Nat.cast_nonneg _
  exact of_rat_eq_finite (abs_le.mpr ⟨by linarith, by linarith⟩)

/-! ## What was received is sent again -/

/-- Clamping does not take a number further from one in the unit interval. -/
theorem abs_clamp_unit_sub_le {value target : ℚ} (hlow : 0 ≤ target) (hhigh : target ≤ 1) :
    |clampUnit value - target| ≤ |value - target| := by
  have hle := le_abs_self (value - target)
  have hge := neg_abs_le (value - target)
  have hnonneg := abs_nonneg (value - target)
  unfold clampUnit
  rw [abs_le]
  rcases max_cases 0 (min value 1) with ⟨hmax, _⟩ | ⟨hmax, _⟩ <;>
    rcases min_cases value 1 with ⟨hmin, _⟩ | ⟨hmin, _⟩ <;>
    rw [hmax] <;> constructor <;> linarith

/-- The thousandths of a confidence are read back. -/
theorem milli_of_milli {confidenceMilli : UInt16} (h : confidenceMilli ≤ 1000) :
    milli (ofMilli confidenceMilli) = confidenceMilli := by
  generalize hn : confidenceMilli.toNat = n
  have hmax : (n : ℚ) ≤ 1000 := by
    exact_mod_cast hn ▸ UInt16.le_iff_toNat_le.mp h
  have hmin : (0 : ℚ) ≤ n := Nat.cast_nonneg n
  generalize hvalue : nearest32 (n * (1 / 1000)) = value
  have hreceived : |value - n * (1 / 1000)| ≤ 1 / 100000 := by
    have herror := abs_nearest32_sub_le_add (n * (1 / 1000))
    rw [hvalue, abs_of_nonneg (by linarith : (0 : ℚ) ≤ n * (1 / 1000))] at herror
    linarith
  have hclamped : |clampUnit value - n * (1 / 1000)| ≤ 1 / 100000 :=
    (abs_clamp_unit_sub_le (by linarith) (by linarith)).trans hreceived
  obtain ⟨hlow, hhigh⟩ := clamp_unit_range value
  -- both roundings together are off by less than half a thousandth
  have hscaled : |nearest32 (clampUnit value * 1000) - n| < 1 / 2 := by
    have herror := abs_nearest32_sub_le_add (clampUnit value * 1000)
    rw [abs_of_nonneg (by linarith : 0 ≤ clampUnit value * 1000)] at herror
    obtain ⟨hbelow, habove⟩ := abs_le.mp herror
    obtain ⟨hbelow', habove'⟩ := abs_le.mp hclamped
    exact abs_lt.mpr ⟨by linarith, by linarith⟩
  have hnearest : nearestMilli (clampUnit value) = n := by
    refine round_away_eq ?_
    rw [Int.cast_natCast]
    exact hscaled
  have hmilli := milli_finite value
  rw [hnearest] at hmilli
  rw [of_milli_eq h, hn, hvalue, ← UInt16.toNat_inj, hn]
  exact_mod_cast hmilli

/-! ## What is sent is what is received -/

/-- Numbers that are not near each other do not round to one. -/
theorem abs_sub_le_of_nearest32_eq {x y : ℚ} (h : nearest32 x = nearest32 y) (hlow : 0 ≤ y)
    (hhigh : y ≤ 1) : |x - y| ≤ 1 / 100000 := by
  have hx := abs_nearest32_sub_le_add x
  have hy := abs_nearest32_sub_le_add y
  rw [abs_of_nonneg hlow] at hy
  have hsub : |x - y| ≤ |nearest32 x - x| + |nearest32 y - y| := by
    rw [abs_sub_comm (nearest32 x), h]
    exact abs_sub_le x (nearest32 y) y
  have hsize : |x| ≤ |x - y| + y := by
    have htriangle := abs_sub_le x y 0
    rwa [sub_zero, sub_zero, abs_of_nonneg hlow] at htriangle
  linarith

/-- The thousandths of a number that is near the unit interval are those of its part in it. -/
theorem nearest_milli_clamp_unit {value : ℚ} {n : ℕ} (hn : n ≤ 1000)
    (h : nearestMilli value = n) : nearestMilli (clampUnit value) = n := by
  -- outside the unit interval only 0 and 1000 thousandths are left
  by_cases hneg : value < 0
  · have hclamp : clampUnit value = 0 := by
      rw [clampUnit, min_eq_left (by linarith), max_eq_left hneg.le]
    have hle : nearestMilli value ≤ 0 := by
      have hmono := round_away_mono (nearest32_nonpos (by linarith : value * 1000 ≤ 0))
      rwa [← Int.cast_zero, round_away_int_cast] at hmono
    have hzero : nearestMilli 0 = 0 := by
      rw [nearestMilli, zero_mul, nearest32_zero, ← Int.cast_zero, round_away_int_cast]
    rw [hclamp, hzero]
    omega
  · by_cases hlarge : 1 < value
    · have hclamp : clampUnit value = 1 := by
        rw [clampUnit, min_eq_right hlarge.le, max_eq_right zero_le_one]
      have hone : nearestMilli 1 = 1000 := by
        refine round_away_eq ?_
        have herror := abs_nearest32_sub_le_add (1 * 1000)
        rw [abs_of_nonneg (by norm_num : (0 : ℚ) ≤ 1 * 1000)] at herror
        obtain ⟨hbelow, habove⟩ := abs_le.mp herror
        exact abs_lt.mpr ⟨by push_cast; linarith, by push_cast; linarith⟩
      have hge : (999 : ℚ) < nearestMilli value := by
        have herror := (abs_le.mp (abs_nearest32_sub_le_add (value * 1000))).1
        have hround := (abs_le.mp (abs_round_away_sub_le (nearest32 (value * 1000)))).1
        rw [abs_of_nonneg (by linarith)] at herror
        rw [nearestMilli]
        linarith
      have hge' : 999 < nearestMilli value := by exact_mod_cast hge
      rw [hclamp, hone]
      omega
    · rw [clampUnit, min_eq_left (not_lt.mp hlarge), max_eq_right (not_lt.mp hneg), h]

/-- A confidence with a nearest thousandth is finite. -/
theorem exists_of_scale_round_eq {confidence : Binary32} {result : ℚ}
    (h : (confidence.scale 1000).round = .finite result) :
    ∃ value, confidence = .finite value ∧ (nearestMilli value : ℚ) = result := by
  obtain ⟨scaled, hscaled, hround⟩ := Binary32.exists_of_round_eq h
  obtain ⟨value, rfl, rfl⟩ := Binary32.exists_of_scale_eq hscaled
  exact ⟨value, rfl, hround⟩

/-- The confidence that is received is the one that was sent, rounded to thousandths, exactly when
its nearest thousandth lies in the unit interval. -/
theorem of_milli_milli_iff (confidence : Binary32) :
    ofMilli (milli confidence) = thousandths confidence ↔ NearUnit confidence := by
  have hreceived := of_milli_eq (milli_le confidence)
  constructor
  · intro h
    -- what is received is finite, and so are the numbers that the thousandths are made from
    rw [hreceived, eq_comm] at h
    obtain ⟨rounded, hround, hscaled⟩ := Binary32.exists_of_scale_eq h
    obtain ⟨value, rfl, rfl⟩ := exists_of_scale_round_eq hround
    have hmax : ((milli (.finite value)).toNat : ℚ) ≤ 1000 := by
      exact_mod_cast UInt16.le_iff_toNat_le.mp (milli_le (.finite value))
    have hmin : (0 : ℚ) ≤ (milli (.finite value)).toNat := Nat.cast_nonneg _
    have hnear := abs_le.mp (abs_sub_le_of_nearest32_eq hscaled (by linarith) (by linarith))
    -- two whole numbers of thousandths that are received as one number are equal
    have heq : nearestMilli value = (milli (.finite value)).toNat := by
      refine int_eq_of_abs_sub_lt (abs_lt.mpr ⟨?_, ?_⟩) <;> push_cast <;> linarith
    refine ⟨_, UInt16.le_iff_toNat_le.mp (milli_le (.finite value)), ?_⟩
    rw [hround, heq, Int.cast_natCast]
  · rintro ⟨n, hn, hround⟩
    obtain ⟨value, rfl, hvalue⟩ := exists_of_scale_round_eq hround
    have hmilli := milli_finite value
    rw [nearest_milli_clamp_unit hn (by exact_mod_cast hvalue)] at hmilli
    have hsent : (milli (.finite value)).toNat = n := by exact_mod_cast hmilli
    rw [thousandths, hround, ofMilli, hsent]

end LatentMesh.Federation
