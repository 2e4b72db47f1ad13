import Mathlib.Algebra.Order.Field.Rat
import Mathlib.Algebra.Order.Round
import Mathlib.Data.Int.ConditionallyCompleteOrder
import Mathlib.Data.Rat.Floor
import Mathlib.Tactic.Linarith

/-!
# Rounding to an integer

The two ways to round a rational to a nearest integer that programs use: a half goes away from zero
(`roundAway`), or to the even neighbour (`roundEven`). An integer within half a step is the result
(`round_away_eq`), and rounding keeps the order (`round_away_mono`, `round_even_mono`).
-/

namespace LatentMesh.Lib

/-- The nearest integer, and of two the one further from zero. -/
def roundAway (x : ℚ) : ℤ := if 0 ≤ x then round x else -round (-x)

/-- The nearest integer, and of two the even one. -/
def roundEven (x : ℚ) : ℤ :=
  if Int.fract x < 1 / 2 then ⌊x⌋
  else if 1 / 2 < Int.fract x then ⌊x⌋ + 1
  else if ⌊x⌋ % 2 = 0 then ⌊x⌋ else ⌊x⌋ + 1

/-- Rounding half away from zero moves a number by no more than a half. -/
theorem abs_round_away_sub_le (x : ℚ) : |(roundAway x : ℚ) - x| ≤ 1 / 2 := by
  unfold roundAway
  split
  · rw [abs_sub_comm]
    exact abs_sub_round x
  · have hround := abs_sub_round (-x)
    rwa [Int.cast_neg, ← abs_neg, neg_sub, sub_neg_eq_add, ← abs_neg, neg_add, ← sub_eq_add_neg]

/-- Rounding half to even moves a number by no more than a half. -/
theorem abs_round_even_sub_le (x : ℚ) : |(roundEven x : ℚ) - x| ≤ 1 / 2 := by
  have hsplit := Int.floor_add_fract x
  have hpos := Int.fract_nonneg x
  have hlt := Int.fract_lt_one x
  unfold roundEven
  rw [abs_le]
  split
  · constructor <;> linarith
  · split
    · push_cast
      constructor <;> linarith
    · split
      · constructor <;> linarith
      · push_cast
        constructor <;> linarith

/-- A number that is not negative is not rounded below zero. -/
theorem round_even_nonneg {x : ℚ} (h : 0 ≤ x) : 0 ≤ roundEven x := by
  have hround := (abs_le.mp (abs_round_even_sub_le x)).1
  have hlt : (-1 : ℚ) < roundEven x := by linarith
  have hint : -1 < roundEven x := by exact_mod_cast hlt
  omega

/-- A number that is not positive is not rounded above zero. -/
theorem round_even_nonpos {x : ℚ} (h : x ≤ 0) : roundEven x ≤ 0 := by
  have hround := (abs_le.mp (abs_round_even_sub_le x)).2
  have hlt : (roundEven x : ℚ) < 1 := by linarith
  have hint : roundEven x < 1 := by exact_mod_cast hlt
  omega

/-- A number is rounded to one of its two neighbours. -/
theorem round_even_cases (x : ℚ) : roundEven x = ⌊x⌋ ∨ roundEven x = ⌊x⌋ + 1 := by
  unfold roundEven
  split
  · exact Or.inl rfl
  · split
    · exact Or.inr rfl
    · split
      · exact Or.inl rfl
      · exact Or.inr rfl

/-- Rounding half to even is monotone. -/
theorem round_even_mono : Monotone roundEven := by
  intro x y hle
  have hfloor := Int.floor_le_floor hle
  rcases hfloor.lt_or_eq with hlt | heq
  · rcases round_even_cases x with hx | hx <;> rcases round_even_cases y with hy | hy <;> omega
  · have hfract : Int.fract x ≤ Int.fract y := by
      rw [Int.fract, Int.fract, heq]
      linarith
    -- on one unit the result goes up with the fraction
    unfold roundEven
    rw [heq]
    split_ifs <;> first | omega | linarith

/-- An integer is rounded to itself. -/
@[simp] theorem round_even_int_cast (n : ℤ) : roundEven n = n := by
  rw [roundEven, Int.fract_intCast, if_pos (by norm_num), Int.floor_intCast]

/-- Rounding half to even commutes with the sign. -/
theorem round_even_neg (x : ℚ) : roundEven (-x) = -roundEven x := by
  by_cases hint : Int.fract x = 0
  · have hx : x = (⌊x⌋ : ℤ) := by
      have hsplit := Int.floor_add_fract x
      linarith
    rw [hx, ← Int.cast_neg, round_even_int_cast, round_even_int_cast]
  · have hfract := Int.fract_neg hint
    have hfloor : ⌊-x⌋ = -⌊x⌋ - 1 := by
      rw [Int.floor_eq_iff]
      have hsplit := Int.floor_add_fract x
      have hpos := (Int.fract_nonneg x).lt_of_ne' hint
      have hlt := Int.fract_lt_one x
      push_cast
      constructor <;> linarith
    unfold roundEven
    rw [hfract, hfloor]
    split_ifs <;> first | omega | linarith

/-- Two integers that are less than a step apart are equal. -/
theorem int_eq_of_abs_sub_lt {first second : ℤ} (h : |(first : ℚ) - second| < 1) :
    first = second := by
  rw [← Int.cast_sub, ← Int.cast_abs] at h
  have hlt : |first - second| < 1 := by exact_mod_cast h
  have hzero := Int.abs_lt_one_iff.mp hlt
  omega

/-- An integer that is less than half a step away is the one rounded to. -/
theorem round_away_eq {x : ℚ} {n : ℤ} (h : |x - n| < 1 / 2) : roundAway x = n := by
  refine int_eq_of_abs_sub_lt ?_
  have hround := abs_round_away_sub_le x
  calc |(roundAway x : ℚ) - n|
      ≤ |(roundAway x : ℚ) - x| + |x - n| := abs_sub_le _ _ _
    _ < 1 := by linarith

/-- An integer is rounded to itself. -/
@[simp] theorem round_away_int_cast (n : ℤ) : roundAway n = n :=
  round_away_eq (by rw [sub_self, abs_zero]; norm_num)

/-- Rounding half away from zero is monotone. -/
theorem round_away_mono : Monotone roundAway := by
  intro x y hle
  have hround : ∀ {x y : ℚ}, x ≤ y → round x ≤ round y := by
    intro x y hle
    rw [round_eq, round_eq]
    exact Int.floor_le_floor (by linarith)
  have hsign : ∀ {x : ℚ}, 0 ≤ x → 0 ≤ round x := by
    intro x hx
    have h := hround hx
    rwa [round_zero] at h
  unfold roundAway
  by_cases hx : 0 ≤ x
  · rw [if_pos hx, if_pos (hx.trans hle)]
    exact hround hle
  · rw [if_neg hx]
    by_cases hy : 0 ≤ y
    · -- one on each side of zero
      rw [if_pos hy]
      have hneg := hsign (x := -x) (by linarith)
      have hpos := hsign hy
      omega
    · rw [if_neg hy]
      have h := hround (neg_le_neg hle)
      omega

/-! ## Clamping -/

/-- The nearest number of a range. -/
def clampInt (low high n : ℤ) : ℤ := max low (min n high)

variable {low high n : ℤ}

/-- Clamping is monotone. -/
theorem clamp_int_mono (low high : ℤ) : Monotone (clampInt low high) :=
  fun _ _ h => max_le_max le_rfl (min_le_min h le_rfl)

/-- A clamped integer is not below the lower bound. -/
theorem le_clamp_int (low high n : ℤ) : low ≤ clampInt low high n := le_max_left _ _

/-- A clamped integer is not above the upper bound. -/
theorem clamp_int_le (h : low ≤ high) (n : ℤ) : clampInt low high n ≤ high :=
  max_le h (min_le_right _ _)

/-- A shift of an integer and of its bounds shifts the clamped integer. -/
theorem clamp_int_sub (low high n shift : ℤ) :
    clampInt low high n - shift = clampInt (low - shift) (high - shift) (n - shift) := by
  unfold clampInt
  omega

/-- An integer within half a step of a number stays so, when a range that it is clamped to comes as
near to the number. -/
theorem abs_clamp_int_sub_le {x : ℚ} (hn : |(n : ℚ) - x| ≤ 1 / 2) (hlow : (low : ℚ) ≤ x + 1 / 2)
    (hhigh : x - 1 / 2 ≤ high) : |(clampInt low high n : ℚ) - x| ≤ 1 / 2 := by
  obtain ⟨hbelow, habove⟩ := abs_le.mp hn
  unfold clampInt
  rw [Int.cast_max, Int.cast_min, abs_le, neg_le_sub_iff_le_add, sub_le_iff_le_add]
  constructor
  · have hmin : x - 1 / 2 ≤ min (n : ℚ) high := le_min (by linarith) hhigh
    have hmax := hmin.trans (le_max_right (low : ℚ) _)
    linarith
  · refine max_le (by linarith) ((min_le_left _ _).trans (by linarith))

end LatentMesh.Lib
