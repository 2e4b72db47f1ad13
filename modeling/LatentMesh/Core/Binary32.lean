import Mathlib.Data.Int.Log
import Mathlib.Tactic.FieldSimp
import Mathlib.Tactic.Positivity
import LatentMesh.Lib.Rounding

/-!
# Binary32 numbers

The values of an `f32`, without the sign of a zero. A result is rounded to the nearest multiple of
the unit in the last place (`nearest32`), which takes it off by a part in 2^24 at most
(`abs_nearest32_sub_le`).
-/

namespace LatentMesh.Core

open LatentMesh.Lib

/-- The exponent of the last of 24 significant bits. -/
def lastPlace (x : ℚ) : ℤ := max (Int.log 2 |x| - 23) (-149)

/-- The nearest number with 24 significant bits, with no upper bound on the exponent. -/
def nearest32 (x : ℚ) : ℚ := roundEven (x / 2 ^ lastPlace x) * 2 ^ lastPlace x

/-- An `f32`. -/
inductive Binary32 where
  | nan
  | infinite (negative : Bool)
  | finite (value : ℚ)
  deriving DecidableEq

namespace Binary32

/-- A result of exact value `x`, rounded. -/
def ofRat (x : ℚ) : Binary32 :=
  if 2 ^ 128 ≤ |nearest32 x| then infinite (decide (x < 0)) else finite (nearest32 x)

/-- The comparison `<`, false for a NaN. -/
def lt : Binary32 → Binary32 → Bool
  | finite left, finite right => decide (left < right)
  | infinite negative, finite _ => negative
  | finite _, infinite negative => !negative
  | infinite left, infinite right => left && !right
  | _, _ => false

/-- `f32::clamp`. -/
def clamp (value low high : Binary32) : Binary32 :=
  let value := if value.lt low then low else value
  if high.lt value then high else value

/-- A product with a positive number, or a quotient by its inverse. -/
def scale (factor : ℚ) : Binary32 → Binary32
  | nan => nan
  | infinite negative => infinite negative
  | finite value => ofRat (value * factor)

/-- `f32::round`. -/
def round : Binary32 → Binary32
  | finite value => finite (roundAway value)
  | other => other

/-- `as u16`. -/
def toU16 : Binary32 → UInt16
  | nan => 0
  | infinite negative => if negative then 0 else 0xffff
  | finite value => UInt16.ofNat (min 0xffff ⌊value⌋.toNat)

/-- A product that is finite is one of a finite number. -/
theorem exists_of_scale_eq {number : Binary32} {factor result : ℚ}
    (h : number.scale factor = finite result) :
    ∃ value, number = finite value ∧ nearest32 (value * factor) = result := by
  cases number with
  | nan => cases h
  | infinite negative => cases h
  | finite value =>
      refine ⟨value, rfl, ?_⟩
      change ofRat (value * factor) = finite result at h
      unfold ofRat at h
      split at h
      · cases h
      · exact finite.inj h

/-- What is rounded to a number was a number. -/
theorem exists_of_round_eq {number : Binary32} {result : ℚ} (h : number.round = finite result) :
    ∃ value, number = finite value ∧ (roundAway value : ℚ) = result := by
  cases number with
  | nan => cases h
  | infinite negative => cases h
  | finite value => exact ⟨value, rfl, finite.inj h⟩

end Binary32

/-- The last place of a number is at most its `2^23`rd part, or that of the least numbers. -/
theorem two_zpow_last_place_le {x : ℚ} (hx : x ≠ 0) :
    (2 : ℚ) ^ lastPlace x ≤ max (|x| / 2 ^ 23) (1 / 2 ^ 149) := by
  unfold lastPlace
  rcases max_cases (Int.log 2 |x| - 23) (-149) with ⟨h, -⟩ | ⟨h, -⟩
  · rw [h]
    refine le_max_of_le_left ?_
    have hlog : (2 : ℚ) ^ Int.log 2 |x| ≤ |x| := by
      exact_mod_cast Int.zpow_log_le_self (R := ℚ) (b := 2) (by norm_num) (abs_pos.mpr hx)
    rw [zpow_sub₀ two_ne_zero]
    exact div_le_div_of_nonneg_right hlog (by positivity)
  · rw [h]
    refine le_max_of_le_right (le_of_eq ?_)
    rw [zpow_neg, one_div]
    norm_cast

/-- Zero is rounded to itself. -/
@[simp] theorem nearest32_zero : nearest32 0 = 0 := by
  have hzero : roundEven 0 = 0 := by
    rw [roundEven, Int.fract_zero, if_pos (by norm_num), Int.floor_zero]
  rw [nearest32, zero_div, hzero, Int.cast_zero, zero_mul]

/-- Rounding takes a number off by half a unit in the last place at most. -/
theorem abs_nearest32_sub_le (x : ℚ) : |nearest32 x - x| ≤ max (|x| / 2 ^ 24) (1 / 2 ^ 150) := by
  by_cases hx : x = 0
  · rw [hx, nearest32_zero, sub_zero, abs_zero]
    exact le_max_of_le_right (by norm_num)
  have hpos : (0 : ℚ) < 2 ^ lastPlace x := zpow_pos two_pos _
  have hscaled : nearest32 x - x =
      ((roundEven (x / 2 ^ lastPlace x) : ℚ) - x / 2 ^ lastPlace x) * 2 ^ lastPlace x := by
    rw [sub_mul, div_mul_cancel₀ _ hpos.ne']
    rfl
  have hplace := two_zpow_last_place_le hx
  calc |nearest32 x - x|
      = |(roundEven (x / 2 ^ lastPlace x) : ℚ) - x / 2 ^ lastPlace x| * 2 ^ lastPlace x := by
        rw [hscaled, abs_mul, abs_of_pos hpos]
    _ ≤ 1 / 2 * 2 ^ lastPlace x :=
        mul_le_mul_of_nonneg_right (abs_round_even_sub_le _) hpos.le
    _ ≤ 1 / 2 * max (|x| / 2 ^ 23) (1 / 2 ^ 149) :=
        mul_le_mul_of_nonneg_left hplace (by norm_num)
    _ = max (|x| / 2 ^ 24) (1 / 2 ^ 150) := by
        rw [mul_max_of_nonneg _ _ (by norm_num : (0 : ℚ) ≤ 1 / 2)]
        congr 1 <;> ring

/-- A result that is not large is finite. -/
theorem of_rat_eq_finite {x : ℚ} (h : |x| ≤ 1001) : Binary32.ofRat x = .finite (nearest32 x) := by
  refine if_neg (not_le.mpr ?_)
  have herror := abs_nearest32_sub_le x
  have hbound : max (|x| / 2 ^ 24) (1 / 2 ^ 150) ≤ 1 :=
    max_le (by rw [div_le_one (by norm_num)]; linarith) (by norm_num)
  have htriangle := abs_sub_le (nearest32 x) x 0
  rw [sub_zero, sub_zero] at htriangle
  linarith

end LatentMesh.Core
