import LatentMesh.Core.Binary32

/-!
# The order of binary32 numbers

The sums and products of `f32`s, and the order of their values. Rounding keeps the order
(`nearest32_mono`), so a sum or a product grows with its operands (`le_add_finite`,
`le_sub_finite`, `product_mono`), and a clamped number with the number (`exists_clamp_unit`).
-/

namespace LatentMesh.Core

open LatentMesh.Lib

/-! ## Rounding keeps the order -/

/-- Rounding commutes with the sign. -/
theorem nearest32_neg (x : ℚ) : nearest32 (-x) = -nearest32 x := by
  have hplace : lastPlace (-x) = lastPlace x := by
    rw [lastPlace, lastPlace, abs_neg]
  rw [nearest32, nearest32, hplace, neg_div, round_even_neg, Int.cast_neg, neg_mul]

/-- Numbers with one last place. -/
theorem nearest32_le_of_place_eq {x y : ℚ} (hle : x ≤ y) (hplace : lastPlace x = lastPlace y) :
    nearest32 x ≤ nearest32 y := by
  have hpos : (0 : ℚ) < 2 ^ lastPlace y := zpow_pos two_pos _
  rw [nearest32, nearest32, hplace]
  refine mul_le_mul_of_nonneg_right ?_ hpos.le
  exact_mod_cast round_even_mono (div_le_div_of_nonneg_right hle hpos.le)

/-- Of two positive numbers the larger has no smaller exponent. -/
theorem log_le_log_of_le {x y : ℚ} (hpos : 0 < x) (hle : x ≤ y) :
    Int.log 2 |x| ≤ Int.log 2 |y| := by
  rw [abs_of_pos hpos, abs_of_pos (hpos.trans_le hle)]
  exact Int.log_mono_right hpos hle

/-- A power of two from the last place on is a multiple of it. -/
theorem exists_multiple_eq_zpow {x : ℚ} {k : ℤ} (hk : lastPlace x ≤ k) :
    ∃ m : ℤ, (2 : ℚ) ^ k = m * 2 ^ lastPlace x := by
  obtain ⟨n, hn⟩ := Int.le.dest hk
  refine ⟨2 ^ n, ?_⟩
  rw [← hn, zpow_add₀ two_ne_zero, mul_comm, zpow_natCast]
  push_cast
  rfl

/-- Rounding does not take a number over a multiple of its last place. -/
theorem nearest32_le_multiple {x : ℚ} {m : ℤ} (hle : x ≤ m * 2 ^ lastPlace x) :
    nearest32 x ≤ m * 2 ^ lastPlace x := by
  have hpos : (0 : ℚ) < 2 ^ lastPlace x := zpow_pos two_pos _
  refine mul_le_mul_of_nonneg_right ?_ hpos.le
  have hround := round_even_mono ((div_le_iff₀ hpos).mpr hle)
  rw [round_even_int_cast] at hround
  exact_mod_cast hround

/-- A multiple of the last place below a number is below what it is rounded to. -/
theorem multiple_le_nearest32 {x : ℚ} {m : ℤ} (hle : m * 2 ^ lastPlace x ≤ x) :
    m * 2 ^ lastPlace x ≤ nearest32 x := by
  have hpos : (0 : ℚ) < 2 ^ lastPlace x := zpow_pos two_pos _
  refine mul_le_mul_of_nonneg_right ?_ hpos.le
  have hround := round_even_mono ((le_div_iff₀ hpos).mpr hle)
  rw [round_even_int_cast] at hround
  exact_mod_cast hround

/-- Rounding is monotone on the positive numbers. -/
theorem nearest32_le_of_pos {x y : ℚ} (hpos : 0 < x) (hle : x ≤ y) :
    nearest32 x ≤ nearest32 y := by
  have hlog := log_le_log_of_le hpos hle
  have hplaces : lastPlace x ≤ lastPlace y := max_le_max_right _ (by omega)
  rcases hplaces.eq_or_lt with hplace | hplace
  · exact nearest32_le_of_place_eq hle hplace
  · -- the power of two below `y` is a multiple of both last places
    have hy : 0 < y := hpos.trans_le hle
    have hplaceY : lastPlace y = Int.log 2 |y| - 23 := by
      unfold lastPlace at hplace ⊢
      omega
    have hplaceX : Int.log 2 |x| - 23 ≤ lastPlace x := le_max_left _ _
    have hbelow : (2 : ℚ) ^ Int.log 2 |y| ≤ y := by
      have h := Int.zpow_log_le_self (R := ℚ) (b := 2) (by norm_num) (abs_pos.mpr hy.ne')
      rw [abs_of_pos hy] at h ⊢
      exact_mod_cast h
    have habove : x ≤ (2 : ℚ) ^ Int.log 2 |y| := by
      have h := Int.lt_zpow_succ_log_self (R := ℚ) (b := 2) (by norm_num) |x|
      have hstep : (2 : ℚ) ^ (Int.log 2 |x| + 1) ≤ 2 ^ Int.log 2 |y| :=
        zpow_le_zpow_right₀ one_le_two (by omega)
      rw [abs_of_pos hpos] at h hstep
      exact (le_of_lt (by exact_mod_cast h)).trans hstep
    obtain ⟨m, hm⟩ := exists_multiple_eq_zpow (x := x) (k := Int.log 2 |y|) (by omega)
    obtain ⟨n, hn⟩ := exists_multiple_eq_zpow (x := y) (k := Int.log 2 |y|) (by omega)
    calc nearest32 x
        ≤ m * 2 ^ lastPlace x := nearest32_le_multiple (hm ▸ habove)
      _ = n * 2 ^ lastPlace y := hm.symm.trans hn
      _ ≤ nearest32 y := multiple_le_nearest32 (hn ▸ hbelow)

/-- Rounding is monotone. -/
theorem nearest32_mono : Monotone nearest32 := by
  intro x y hle
  rcases lt_or_ge 0 x with hx | hx
  · exact nearest32_le_of_pos hx hle
  rcases lt_or_ge y 0 with hy | hy
  · have hneg := nearest32_le_of_pos (neg_pos.mpr hy) (neg_le_neg hle)
    rw [nearest32_neg, nearest32_neg] at hneg
    linarith
  · -- one on each side of zero
    have hzero : ∀ z : ℚ, ((0 : ℤ) : ℚ) * 2 ^ lastPlace z = 0 := fun z => by
      rw [Int.cast_zero, zero_mul]
    have hlow : nearest32 x ≤ 0 := hzero x ▸ nearest32_le_multiple (by rwa [hzero])
    have hhigh : 0 ≤ nearest32 y := hzero y ▸ multiple_le_nearest32 (by rwa [hzero])
    exact hlow.trans hhigh

/-- A multiple of its last place is rounded to itself. -/
theorem nearest32_of_multiple {x : ℚ} {m : ℤ} (h : x = m * 2 ^ lastPlace x) : nearest32 x = x :=
  le_antisymm ((nearest32_le_multiple h.le).trans_eq h.symm)
    (h.trans_le (multiple_le_nearest32 h.ge))

/-- The whole numbers up to 2^24 are rounded to themselves. -/
theorem nearest32_nat_cast {n : ℕ} (h : n ≤ 2 ^ 24) : nearest32 n = n := by
  rcases h.lt_or_eq with hlt | rfl
  · have hplace : lastPlace n ≤ 0 := by
      have hlog : Nat.log 2 n < 24 := Nat.log_lt_of_lt_pow' (by norm_num) hlt
      rw [lastPlace, Nat.abs_cast, Int.log_natCast]
      omega
    obtain ⟨m, hm⟩ := exists_multiple_eq_zpow hplace
    refine nearest32_of_multiple (m := n * m) ?_
    rw [Int.cast_mul, mul_assoc, ← hm, zpow_zero, mul_one, Int.cast_natCast]
  · have hplace : lastPlace ((2 ^ 24 : ℕ) : ℚ) ≤ 24 := by
      rw [lastPlace, Nat.abs_cast, Int.log_natCast, Nat.log_pow (by norm_num)]
      omega
    obtain ⟨m, hm⟩ := exists_multiple_eq_zpow hplace
    refine nearest32_of_multiple (m := m) ?_
    rw [← hm]
    norm_num

/-! ## Sums and products -/

namespace Binary32

/-- The sign changed. -/
def neg : Binary32 → Binary32
  | nan => nan
  | infinite negative => infinite !negative
  | finite value => finite (-value)

/-- The rounded sum. -/
def add : Binary32 → Binary32 → Binary32
  | finite left, finite right => ofRat (left + right)
  | infinite left, infinite right => if left = right then infinite left else nan
  | infinite negative, finite _ => infinite negative
  | finite _, infinite negative => infinite negative
  | _, _ => nan

/-- The rounded difference. -/
def sub (left right : Binary32) : Binary32 := left.add right.neg

/-- The rounded product. -/
def mul : Binary32 → Binary32 → Binary32
  | finite left, finite right => ofRat (left * right)
  | infinite left, infinite right => infinite (left ^^ right)
  | infinite negative, finite value =>
      if value = 0 then nan else infinite (negative ^^ decide (value < 0))
  | finite value, infinite negative =>
      if value = 0 then nan else infinite (decide (value < 0) ^^ negative)
  | _, _ => nan

/-- The comparison `<=`, false for a NaN. -/
def le : Binary32 → Binary32 → Bool
  | finite left, finite right => decide (left ≤ right)
  | infinite negative, finite _ => negative
  | finite _, infinite negative => !negative
  | infinite left, infinite right => left || !right
  | _, _ => false

/-- `f32::max`: an operand that is NaN is ignored. -/
def max : Binary32 → Binary32 → Binary32
  | nan, right => right
  | left, nan => left
  | left, right => if left.lt right then right else left

/-- `as f32`. -/
def ofU32 (n : UInt32) : Binary32 := ofRat n.toNat

/-- `as u32`. -/
def toU32 : Binary32 → UInt32
  | nan => 0
  | infinite negative => if negative then 0 else 0xffffffff
  | finite value => UInt32.ofNat (min 0xffffffff ⌊value⌋.toNat)

/-- The values that an `f32` can have. -/
def Exact (value : ℚ) : Prop := nearest32 value = value ∧ |value| < 2 ^ 128

instance (value : ℚ) : Decidable (Exact value) := inferInstanceAs (Decidable (_ ∧ _))

/-! ## Their order -/

variable {x y z : Binary32} {a b c : ℚ}

/-- Finite numbers are compared as rationals. -/
theorem finite_le_finite : (finite a).le (finite b) = true ↔ a ≤ b := decide_eq_true_iff

/-- The comparison is transitive. -/
theorem le_trans (h : x.le y = true) (h' : y.le z = true) : x.le z = true := by
  cases x with
  | nan => cases h
  | infinite first =>
      cases y with
      | nan => cases h
      | infinite second => cases z <;> cases first <;> cases second <;> simp_all [le]
      | finite b => cases z <;> cases first <;> simp_all [le]
  | finite a =>
      cases y with
      | nan => cases h
      | infinite second => cases z <;> cases second <;> simp_all [le]
      | finite b =>
          cases z with
          | nan => cases h'
          | infinite third => exact h'
          | finite c =>
              rw [finite_le_finite] at h h' ⊢
              exact h.trans h'

/-- Every number but a NaN is at most itself. -/
theorem le_self (h : x ≠ nan) : x.le x = true := by
  cases x with
  | nan => exact absurd rfl h
  | infinite negative => cases negative <;> rfl
  | finite a => exact finite_le_finite.mpr le_rfl

/-- Numbers that are not NaN are in order one way or the other. -/
theorem le_of_not_lt (hx : x ≠ nan) (hy : y ≠ nan) (h : x.lt y = false) : y.le x = true := by
  cases x with
  | nan => exact absurd rfl hx
  | infinite first =>
      cases y with
      | nan => exact absurd rfl hy
      | infinite second => cases first <;> cases second <;> first | rfl | cases h
      | finite b => cases first <;> first | rfl | cases h
  | finite a =>
      cases y with
      | nan => exact absurd rfl hy
      | infinite second => cases second <;> first | rfl | cases h
      | finite b => exact finite_le_finite.mpr (not_lt.mp (of_decide_eq_false h))

/-- What is less is at most. -/
theorem le_of_lt (h : x.lt y = true) : x.le y = true := by
  cases x with
  | nan => cases h
  | infinite first =>
      cases y with
      | nan => cases h
      | infinite second => cases first <;> cases second <;> first | rfl | cases h
      | finite b => exact h
  | finite a =>
      cases y with
      | nan => cases h
      | infinite second => exact h
      | finite b => exact finite_le_finite.mpr (of_decide_eq_true h).le

/-- What compares is no NaN. -/
theorem ne_nan_of_le (h : x.le y = true) : x ≠ nan ∧ y ≠ nan := by
  cases x <;> cases y <;> simp_all [le]

/-- The maximum of a number and another value. -/
theorem max_eq (hx : x ≠ nan) (y : Binary32) : x.max y = if x.lt y then y else x := by
  cases x <;> cases y <;> first | rfl | exact absurd rfl hx

/-- The maximum is at least its first argument. -/
theorem le_max_left (hx : x ≠ nan) (y : Binary32) : x.le (x.max y) = true := by
  rw [max_eq hx]
  split
  · exact le_of_lt (by assumption)
  · exact le_self hx

/-- The maximum is at least its second argument. -/
theorem le_max_right (hx : x ≠ nan) (hy : y ≠ nan) : y.le (x.max y) = true := by
  rw [max_eq hx]
  split
  · exact le_self hy
  · exact le_of_not_lt hx hy (Bool.eq_false_of_not_eq_true (by assumption))

/-- The maximum is monotone. -/
theorem max_le_max (h : x.le y = true) (z : Binary32) : (x.max z).le (y.max z) = true := by
  obtain ⟨hx, hy⟩ := ne_nan_of_le h
  rw [max_eq hx]
  split
  · exact le_max_right hy (ne_nan_of_le (le_of_lt (by assumption))).2
  · exact le_trans h (le_max_left hy z)

/-- Rounding keeps the order, also where it overflows. -/
theorem of_rat_mono (h : a ≤ b) : (ofRat a).le (ofRat b) = true := by
  have hround := nearest32_mono h
  unfold ofRat
  by_cases ha : 2 ^ 128 ≤ |nearest32 a| <;> by_cases hb : 2 ^ 128 ≤ |nearest32 b|
  · rw [if_pos ha, if_pos hb]
    by_cases hneg : a < 0
    · simp [le, hneg]
    · simp [le, not_lt.mpr ((not_lt.mp hneg).trans h)]
  · rw [if_pos ha, if_neg hb]
    refine decide_eq_true (lt_of_not_ge fun hpos => hb ?_)
    have hzero := nearest32_mono hpos
    rw [nearest32_zero] at hzero
    rw [abs_of_nonneg hzero] at ha
    exact ha.trans (hround.trans (le_abs_self _))
  · rw [if_neg ha, if_pos hb]
    have hpos : ¬ b < 0 := fun hneg => ha (by
      have hzero := nearest32_mono hneg.le
      rw [nearest32_zero] at hzero
      rw [abs_of_nonpos hzero] at hb
      exact hb.trans ((neg_le_neg hround).trans (neg_le_abs _)))
    simp [le, hpos]
  · rw [if_neg ha, if_neg hb, finite_le_finite]
    exact hround

/-- A number at most one that an `f32` has is rounded to a number at most it. -/
theorem of_rat_le_exact (hpos : 0 ≤ a) (hle : a ≤ b) (hb : Exact b) :
    ofRat a = finite (nearest32 a) ∧ 0 ≤ nearest32 a ∧ nearest32 a ≤ b := by
  have hzero := nearest32_mono hpos
  rw [nearest32_zero] at hzero
  have hround : nearest32 a ≤ b := hb.1 ▸ nearest32_mono hle
  refine ⟨if_neg (not_le.mpr ?_), hzero, hround⟩
  rw [abs_of_nonneg hzero]
  exact (hround.trans (le_abs_self b)).trans_lt hb.2

/-- Adding more gives more. -/
theorem le_add_finite (h : x.le y = true) (hle : a ≤ b) :
    (x.add (finite a)).le (y.add (finite b)) = true := by
  cases x with
  | nan => cases h
  | infinite first =>
      cases y with
      | nan => cases h
      | infinite second => exact h
      | finite d =>
          cases h
          show (infinite true).le (ofRat (d + b)) = true
          unfold ofRat
          split <;> rfl
  | finite c =>
      cases y with
      | nan => cases h
      | infinite second =>
          cases second with
          | true => cases h
          | false =>
              show (ofRat (c + a)).le (infinite false) = true
              unfold ofRat
              split
              · simp [le]
              · rfl
      | finite d => exact of_rat_mono (add_le_add (finite_le_finite.mp h) hle)

/-- Subtracting less gives more. -/
theorem le_sub_finite (h : x.le y = true) (hle : b ≤ a) :
    (x.sub (finite a)).le (y.sub (finite b)) = true :=
  le_add_finite h (neg_le_neg hle)

/-- A weighted number of the unit interval grows with the number. -/
theorem product_mono (ha : Exact a) (hpos : 0 ≤ a) (hb : 0 ≤ b) (hle : b ≤ c) (hc : c ≤ 1) :
    ∃ small large, (finite a).mul (finite b) = finite small ∧
      (finite a).mul (finite c) = finite large ∧ 0 ≤ small ∧ small ≤ large ∧ large ≤ a := by
  have hsmall : a * b ≤ a * c := mul_le_mul_of_nonneg_left hle hpos
  have hlarge : a * c ≤ a := mul_le_of_le_one_right hpos hc
  obtain ⟨heq, hnonneg, -⟩ := of_rat_le_exact (mul_nonneg hpos hb) (hsmall.trans hlarge) ha
  obtain ⟨heq', -, hbound⟩ := of_rat_le_exact (mul_nonneg hpos (hb.trans hle)) hlarge ha
  exact ⟨_, _, heq, heq', hnonneg, nearest32_mono hsmall, hbound⟩

/-- A finite number is clamped as a rational. -/
theorem clamp_unit_finite (a : ℚ) :
    (finite a).clamp (finite 0) (finite 1) = finite (0 ⊔ a ⊓ 1) := by
  unfold clamp
  rcases lt_or_ge a 0 with hneg | hpos
  · simp [lt, hneg, inf_le_left.trans hneg.le]
  · rcases lt_or_ge 1 a with hlarge | hsmall
    · simp [lt, not_lt.mpr hpos, hlarge, hlarge.le]
    · simp [lt, not_lt.mpr hpos, not_lt.mpr hsmall, hsmall, hpos]

/-- Clamping to the unit interval keeps the order. -/
theorem exists_clamp_unit (h : x.le y = true) :
    ∃ small large, x.clamp (finite 0) (finite 1) = finite small ∧
      y.clamp (finite 0) (finite 1) = finite large ∧ 0 ≤ small ∧ small ≤ large ∧ large ≤ 1 := by
  have hlow : ∀ a : ℚ, 0 ≤ 0 ⊔ a ⊓ 1 := fun a => le_sup_left
  have hhigh : ∀ a : ℚ, 0 ⊔ a ⊓ 1 ≤ 1 := fun a => sup_le zero_le_one inf_le_right
  cases x with
  | nan => cases h
  | infinite first =>
      cases y with
      | nan => cases h
      | infinite second =>
          cases first with
          | true =>
              cases second with
              | true => exact ⟨0, 0, rfl, rfl, le_rfl, le_rfl, zero_le_one⟩
              | false => exact ⟨0, 1, rfl, rfl, le_rfl, zero_le_one, le_rfl⟩
          | false =>
              cases second with
              | true => cases h
              | false => exact ⟨1, 1, rfl, rfl, zero_le_one, le_rfl, le_rfl⟩
      | finite b =>
          cases h
          exact ⟨0, _, rfl, clamp_unit_finite b, le_rfl, hlow b, hhigh b⟩
  | finite a =>
      cases y with
      | nan => cases h
      | infinite second =>
          cases second with
          | true => cases h
          | false => exact ⟨_, 1, clamp_unit_finite a, rfl, hlow a, hhigh a, le_rfl⟩
      | finite b =>
          have hle : 0 ⊔ a ⊓ 1 ≤ 0 ⊔ b ⊓ 1 :=
            sup_le_sup_left (inf_le_inf_right 1 (finite_le_finite.mp h)) 0
          exact ⟨_, _, clamp_unit_finite a, clamp_unit_finite b, hlow a, hle, hhigh b⟩

end Binary32

end LatentMesh.Core
