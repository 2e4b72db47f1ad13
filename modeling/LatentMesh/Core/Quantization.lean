import LatentMesh.Core.LatentFrame
import LatentMesh.Lib.Rounding
import LatentMesh.Lib.Traverse

/-!
# Int8 payloads

`Payload::encode` and `Payload::decode` for `Encoding::Int8`, with exact numbers for the floats. The
zero point and the levels are 32-bit integers, so a value has to lie within 2^31 steps of zero. It
then comes back within half a step, and else the decoder overflows or is further off:
see `int8_round_trip_iff`.
-/

namespace LatentMesh.Core

open LatentMesh.Lib

/-! ## Encoding and decoding -/

/-- `f32::MAX`. -/
def f32Max : ℚ := (2 ^ 24 - 1) * 2 ^ 104

/-- The number that a finite `f32` stands for. -/
structure FloatValue where
  value : ℚ
  bounded : |value| ≤ f32Max

/-- `as i32` of a number without a fraction. -/
def asI32 (n : ℤ) : ℤ := clampInt (-(2 ^ 31)) (2 ^ 31 - 1) n

/-- An `i32` result. -/
def checkedI32 (value : ℤ) : Option ℤ :=
  if -(2 ^ 31) ≤ value ∧ value ≤ 2 ^ 31 - 1 then some value else none

/-- The byte of a value. -/
def quantize (scale : ℚ) (zeroPoint : ℤ) (value : ℚ) : Option UInt8 := do
  let q ← checkedI32 (asI32 (roundAway (value / scale)) + zeroPoint)
  some (UInt8.ofNat (clampInt 0 255 q).toNat)

/-- The value of a byte. -/
def dequantize (scale : ℚ) (zeroPoint : ℤ) (byte : UInt8) : Option ℚ := do
  let level ← checkedI32 (byte.toNat - zeroPoint)
  some (level * scale)

/-- The body of the fold of `encode`. -/
def extendRange (range : ℚ × ℚ) (v : FloatValue) : ℚ × ℚ :=
  (min range.1 v.value, max range.2 v.value)

/-- The least and the greatest value. The fold starts with `(f32::MAX, f32::MIN)`. -/
def valueRange (values : List FloatValue) : ℚ × ℚ := values.foldl extendRange (f32Max, -f32Max)

/-- A range of one value is widened. -/
def widen : ℚ × ℚ → ℚ × ℚ
  | (low, high) => if low = high then (low - 1, high + 1) else (low, high)

/-- `Payload::encode` with `Encoding::Int8`. -/
def Payload.encodeInt8 (values : List FloatValue) : Option (Payload ℚ) := do
  let (low, high) := widen (valueRange values)
  let scale := (high - low) / 255
  let zeroPoint := asI32 (roundAway (-low / scale))
  let bytes ← values.mapM fun v => quantize scale zeroPoint v.value
  some
    { encoding := .int8
      dim := .ofNat values.length
      bytes
      int8Params := some (scale, .ofInt zeroPoint) }

/-- `Payload::decode` of an `Encoding::Int8` payload. -/
def Payload.decodeInt8 (self : Payload ℚ) : Option (List ℚ) :=
  let (scale, zeroPoint) := self.int8Params.getD (1, 0)
  self.bytes.mapM fun byte => dequantize scale zeroPoint.toInt byte

/-! ## One value -/

/-- The level of a number of steps `x`, where the least value has `low` steps. -/
def levelOf (low x : ℚ) : ℤ :=
  clampInt 0 255 (asI32 (roundAway x) + asI32 (roundAway (-low))) - asI32 (roundAway (-low))

/-- The saturating cast is monotone. -/
theorem as_i32_mono : Monotone asI32 := clamp_int_mono _ _

/-- The saturating cast gives an integer of 32 bits. -/
theorem as_i32_mem (n : ℤ) : -(2 ^ 31) ≤ asI32 n ∧ asI32 n ≤ 2 ^ 31 - 1 :=
  ⟨le_clamp_int _ _ _, clamp_int_le (by norm_num) _⟩

/-- A larger value has no lower level. -/
theorem level_of_mono (low : ℚ) : Monotone (levelOf low) := by
  intro x y h
  have hlevel := as_i32_mono (round_away_mono h)
  exact sub_le_sub_right (clamp_int_mono 0 255 (by omega)) _

/-- A number of at most 2^31 - 1/2 steps is rounded to within half a step. -/
theorem abs_as_i32_sub_le {x : ℚ} (h : |x| ≤ 2 ^ 31 - 1 / 2) :
    |(asI32 (roundAway x) : ℚ) - x| ≤ 1 / 2 := by
  obtain ⟨hlow, hhigh⟩ := abs_le.mp h
  refine abs_clamp_int_sub_le (abs_round_away_sub_le x) ?_ ?_
  · push_cast
    linarith
  · push_cast
    linarith

/-- A lower bound on a value below the largest integer is one on its cast. -/
theorem le_as_i32 {q : ℚ} {n : ℤ} (hn : q ≤ n) (hmax : q ≤ 2 ^ 31 - 1) : q ≤ asI32 n := by
  unfold asI32 clampInt
  rw [Int.cast_max, Int.cast_min]
  exact le_max_of_le_right (le_min hn (hmax.trans_eq (by norm_num)))

/-- An upper bound on a value above the least integer is one on its cast. -/
theorem as_i32_le {q : ℚ} {n : ℤ} (hn : n ≤ q) (hmin : -(2 ^ 31) ≤ q) : asI32 n ≤ q := by
  unfold asI32 clampInt
  rw [Int.cast_max, Int.cast_min]
  exact max_le (le_of_eq_of_le (by norm_num) hmin) ((min_le_left _ _).trans hn)

/-- The level is a rounded value within shifted bounds. -/
theorem level_of_eq (low x : ℚ) :
    levelOf low x = clampInt (-asI32 (roundAway (-low))) (255 - asI32 (roundAway (-low)))
      (asI32 (roundAway x)) := by
  rw [levelOf, clamp_int_sub, zero_sub, add_sub_cancel_right]

/-- The level is never the least `i32`. -/
theorem lt_level_of (low x : ℚ) : -(2 ^ 31) + 1 ≤ levelOf low x := by
  have hzero := (as_i32_mem (roundAway (-low))).2
  have hlevel := le_clamp_int (-asI32 (roundAway (-low))) (255 - asI32 (roundAway (-low)))
    (asI32 (roundAway x))
  rw [level_of_eq]
  omega

/-- Within reach nothing overflows, and the level is within half a step. -/
theorem level_of_spec {low x : ℚ} (hlow : low ≤ x) (hhigh : x ≤ low + 255)
    (hx : |x| ≤ 2 ^ 31 - 1 / 2) (hroom : low ≤ 2 ^ 31 - 1) :
    (-1 ≤ asI32 (roundAway x) + asI32 (roundAway (-low)) ∧
      asI32 (roundAway x) + asI32 (roundAway (-low)) ≤ 256) ∧
    levelOf low x ≤ 2 ^ 31 - 1 ∧ |(levelOf low x : ℚ) - x| ≤ 1 / 2 := by
  obtain ⟨hxlow, hxhigh⟩ := abs_le.mp hx
  obtain ⟨hlevelLow, hlevelHigh⟩ := abs_le.mp (abs_as_i32_sub_le hx)
  obtain ⟨hzeroLow, hzeroHigh⟩ := abs_le.mp (abs_round_away_sub_le (-low))
  have hround : -(2 ^ 31) + 1 ≤ roundAway (-low) := by
    have hlt : (-(2 ^ 31) : ℚ) < roundAway (-low) := by linarith
    have hint : -(2 ^ 31) < roundAway (-low) := by exact_mod_cast hlt
    omega
  have hfits : -(2 ^ 31) + 1 ≤ asI32 (roundAway (-low)) := by
    have hle : ((-(2 ^ 31) + 1 : ℤ) : ℚ) ≤ asI32 (roundAway (-low)) :=
      le_as_i32 (by exact_mod_cast hround) (by norm_num)
    exact_mod_cast hle
  -- a zero point that saturates leaves the level less than a step outside the byte range
  have hzero : -x - 1 / 2 ≤ asI32 (roundAway (-low)) := le_as_i32 (by linarith) (by linarith)
  have hzero' : asI32 (roundAway (-low)) ≤ 255 - x + 1 / 2 := as_i32_le (by linarith) (by linarith)
  have hmem := (as_i32_mem (roundAway x)).2
  refine ⟨⟨?_, ?_⟩, ?_, ?_⟩
  · have hsum : ((-1 : ℤ) : ℚ) ≤ (asI32 (roundAway x) + asI32 (roundAway (-low)) : ℤ) := by
      push_cast
      linarith
    exact_mod_cast hsum
  · have hsum : ((asI32 (roundAway x) + asI32 (roundAway (-low)) : ℤ) : ℚ) ≤ (256 : ℤ) := by
      push_cast
      linarith
    exact_mod_cast hsum
  · rw [level_of_eq]
    exact max_le (by omega) ((min_le_left _ _).trans hmem)
  · rw [level_of_eq]
    refine abs_clamp_int_sub_le (abs_as_i32_sub_le hx) ?_ ?_
    · push_cast
      linarith
    · push_cast
      linarith

/-- A value of 32 bits, and no other, is computed without overflow. -/
theorem checked_i32_eq_some_iff {n m : ℤ} :
    checkedI32 n = some m ↔ (-(2 ^ 31) ≤ n ∧ n ≤ 2 ^ 31 - 1) ∧ n = m := by
  rw [checkedI32, Option.ite_none_right_eq_some, Option.some.injEq]

/-- A clamped level fits into a byte. -/
theorem clamped_byte (q : ℤ) :
    ((UInt8.ofNat (clampInt 0 255 q).toNat).toNat : ℤ) = clampInt 0 255 q := by
  have hlow := le_clamp_int 0 255 q
  have hhigh := clamp_int_le (show (0 : ℤ) ≤ 255 by norm_num) q
  rw [UInt8.toNat_ofNat_of_lt' (by simp only [UInt8.size]; omega)]
  exact Int.toNat_of_nonneg hlow

/-- What becomes of a value. -/
theorem dequantize_quantize_eq_some_iff {scale low v decoded : ℚ} :
    (quantize scale (asI32 (roundAway (-low))) v).bind
        (dequantize scale (asI32 (roundAway (-low)))) = some decoded ↔
      (-(2 ^ 31) ≤ asI32 (roundAway (v / scale)) + asI32 (roundAway (-low)) ∧
        asI32 (roundAway (v / scale)) + asI32 (roundAway (-low)) ≤ 2 ^ 31 - 1) ∧
      levelOf low (v / scale) ≤ 2 ^ 31 - 1 ∧ levelOf low (v / scale) * scale = decoded := by
  have hlevel := lt_level_of low (v / scale)
  constructor
  · intro h
    obtain ⟨byte, hbyte, hvalue⟩ := Option.bind_eq_some_iff.mp h
    obtain ⟨q, hq, hclamp⟩ := Option.bind_eq_some_iff.mp hbyte
    obtain ⟨level, hchecked, hdecoded⟩ := Option.bind_eq_some_iff.mp hvalue
    obtain ⟨hfits, rfl⟩ := checked_i32_eq_some_iff.mp hq
    obtain rfl := Option.some.inj hclamp
    rw [clamped_byte] at hchecked
    obtain ⟨hfits', rfl⟩ := checked_i32_eq_some_iff.mp hchecked
    exact ⟨hfits, hfits'.2, Option.some.inj hdecoded⟩
  · rintro ⟨hfits, hhigh, rfl⟩
    refine Option.bind_eq_some_iff.mpr ⟨_, Option.bind_eq_some_iff.mpr
      ⟨_, checked_i32_eq_some_iff.mpr ⟨hfits, rfl⟩, rfl⟩, Option.bind_eq_some_iff.mpr
      ⟨levelOf low (v / scale), checked_i32_eq_some_iff.mpr ?_, rfl⟩⟩
    rw [clamped_byte]
    exact ⟨⟨by unfold levelOf at hlevel; omega, hhigh⟩, rfl⟩

/-! ## The range -/

variable {values : List FloatValue} {low high : ℚ}

/-- The least of some values and a first bound, and the greatest of them and another one. -/
structure FoldedRange (values : List FloatValue) (start range : ℚ × ℚ) : Prop where
  low_le : range.1 ≤ start.1
  le_high : start.2 ≤ range.2
  covers : ∀ v ∈ values, range.1 ≤ v.value ∧ v.value ≤ range.2
  low_mem : range.1 = start.1 ∨ ∃ v ∈ values, v.value = range.1
  high_mem : range.2 = start.2 ∨ ∃ v ∈ values, v.value = range.2

/-- The loop computes the range of the values. -/
theorem folded_range (values : List FloatValue) (start : ℚ × ℚ) :
    FoldedRange values start (values.foldl extendRange start) := by
  induction values generalizing start with
  | nil => exact ⟨le_rfl, le_rfl, (fun v hv => nomatch hv), Or.inl rfl, Or.inl rfl⟩
  | cons first rest ih =>
      obtain ⟨hlow, hhigh, hcovers, hlowMem, hhighMem⟩ := ih (extendRange start first)
      refine ⟨hlow.trans (min_le_left _ _), (le_max_left _ _).trans hhigh,
        List.forall_mem_cons.mpr ⟨⟨hlow.trans (min_le_right _ _),
          (le_max_right _ _).trans hhigh⟩, hcovers⟩, ?_, ?_⟩
      · rcases hlowMem with heq | ⟨v, hv, heq⟩
        · rcases min_choice start.1 first.value with hmin | hmin
          · exact Or.inl (heq.trans hmin)
          · exact Or.inr ⟨first, List.mem_cons_self, (heq.trans hmin).symm⟩
        · exact Or.inr ⟨v, List.mem_cons_of_mem _ hv, heq⟩
      · rcases hhighMem with heq | ⟨v, hv, heq⟩
        · rcases max_choice start.2 first.value with hmax | hmax
          · exact Or.inl (heq.trans hmax)
          · exact Or.inr ⟨first, List.mem_cons_self, (heq.trans hmax).symm⟩
        · exact Or.inr ⟨v, List.mem_cons_of_mem _ hv, heq⟩

/-- The range of some values is from one of them to another one. -/
theorem value_range_mem (hne : values ≠ []) :
    (∃ v ∈ values, v.value = (valueRange values).1) ∧
      ∃ v ∈ values, v.value = (valueRange values).2 := by
  obtain ⟨first, hfirst⟩ := List.exists_mem_of_ne_nil values hne
  obtain ⟨-, -, hcovers, hlow, hhigh⟩ := folded_range values (f32Max, -f32Max)
  obtain ⟨hbelow, habove⟩ := abs_le.mp first.bounded
  obtain ⟨hfirstLow, hfirstHigh⟩ := hcovers first hfirst
  constructor
  · rcases hlow with heq | hmem
    · exact ⟨first, hfirst, le_antisymm (habove.trans_eq heq.symm) hfirstLow⟩
    · exact hmem
  · rcases hhigh with heq | hmem
    · exact ⟨first, hfirst, le_antisymm hfirstHigh (heq.trans_le hbelow)⟩
    · exact hmem

/-- The range that the encoder uses. -/
structure Spans (values : List FloatValue) (low high : ℚ) : Prop where
  positive : low < high
  covers : ∀ v ∈ values, low ≤ v.value ∧ v.value ≤ high
  room : ∃ v ∈ values, low + (high - low) / 255 ≤ v.value
  spread : (∃ least ∈ values, ∃ greatest ∈ values, least.value = low ∧ greatest.value = high) ∨
    high - low = 2 ∧ ∀ v ∈ values, ∀ other ∈ values, v.value = other.value

/-- The widened range spans the values. -/
theorem widen_spans (hne : values ≠ []) :
    Spans values (widen (valueRange values)).1 (widen (valueRange values)).2 := by
  obtain ⟨-, -, hcovers, -, -⟩ := folded_range values (f32Max, -f32Max)
  obtain ⟨⟨least, hleast, hlow⟩, ⟨greatest, hgreatest, hhigh⟩⟩ := value_range_mem hne
  change ∀ v ∈ values, (valueRange values).1 ≤ v.value ∧ v.value ≤ (valueRange values).2 at hcovers
  generalize valueRange values = range at hcovers hlow hhigh
  obtain ⟨low, high⟩ := range
  dsimp only at hcovers hlow hhigh
  unfold widen
  dsimp only
  split
  · -- a range of one value is widened by one to either side
    rename_i hsame
    subst hsame
    have hall : ∀ v ∈ values, v.value = low := fun v hv =>
      le_antisymm (hcovers v hv).2 (hcovers v hv).1
    refine ⟨by linarith, fun v hv => ?_, ⟨least, hleast, ?_⟩, Or.inr ⟨by ring, ?_⟩⟩
    · rw [hall v hv]
      constructor <;> linarith
    · rw [hlow]
      linarith
    · intro v hv other hother
      rw [hall v hv, hall other hother]
  · rename_i hdifferent
    have hle : low ≤ high := (hcovers least hleast).1.trans (hcovers least hleast).2
    have hlt : low < high := lt_of_le_of_ne hle hdifferent
    refine ⟨hlt, hcovers, ⟨greatest, hgreatest, ?_⟩,
      Or.inl ⟨least, hleast, greatest, hgreatest, hlow, hhigh⟩⟩
    rw [hhigh]
    linarith

/-- Some two values are far enough apart for a value, or all values are equal and it is near enough
to zero. -/
def InReach (values : List FloatValue) (v : FloatValue) : Prop :=
  (∃ least ∈ values, ∃ greatest ∈ values,
    510 * |v.value| ≤ (2 ^ 32 - 1) * (greatest.value - least.value)) ∨
  (∀ other ∈ values, other.value = v.value) ∧ 255 * |v.value| ≤ 2 ^ 32 - 1

/-- A value is in reach when the cast of its quotient does not saturate. -/
theorem in_reach_iff (h : Spans values low high) {v : FloatValue} (hv : v ∈ values) :
    InReach values v ↔ |v.value / ((high - low) / 255)| ≤ 2 ^ 31 - 1 / 2 := by
  have hspan : 0 < high - low := sub_pos.mpr h.positive
  have hscale : 0 < (high - low) / 255 := by linarith
  have hsteps : |v.value / ((high - low) / 255)| ≤ 2 ^ 31 - 1 / 2 ↔
      510 * |v.value| ≤ (2 ^ 32 - 1) * (high - low) := by
    rw [abs_div, abs_of_pos hscale, div_le_iff₀ hscale]
    constructor <;> intro hle <;> linarith
  rw [hsteps]
  constructor
  · rintro (⟨least, hleast, greatest, hgreatest, hle⟩ | ⟨hall, hle⟩)
    · have hlow := (h.covers least hleast).1
      have hhigh := (h.covers greatest hgreatest).2
      linarith
    · rcases h.spread with ⟨least, hleast, greatest, hgreatest, rfl, rfl⟩ | ⟨htwo, -⟩
      · have hpositive := h.positive
        rw [hall least hleast, hall greatest hgreatest] at hpositive
        exact absurd hpositive (lt_irrefl _)
      · rw [htwo]
        linarith
  · intro hle
    rcases h.spread with ⟨least, hleast, greatest, hgreatest, rfl, rfl⟩ | ⟨htwo, hall⟩
    · exact Or.inl ⟨least, hleast, greatest, hgreatest, hle⟩
    · rw [htwo] at hle
      exact Or.inr ⟨fun other hother => hall other hother v hv, by linarith⟩

/-! ## Every vector -/

/-- Encoding and decoding do not overflow, each value comes back within half a step, and the order
is kept. -/
def RoundTrips (values : List FloatValue) : Prop :=
  ∃ payload scale zeroPoint decoded, Payload.encodeInt8 values = some payload ∧
    payload.int8Params = some (scale, zeroPoint) ∧ payload.decodeInt8 = some decoded ∧
    decoded.length = values.length ∧
    (∀ pair ∈ values.zip decoded, |pair.2 - pair.1.value| ≤ scale / 2) ∧
    ∀ first ∈ values.zip decoded, ∀ second ∈ values.zip decoded,
      first.1.value ≤ second.1.value → first.2 ≤ second.2

/-- What the encoder and the decoder make of a value. -/
def requantize (scale low v : ℚ) : Option ℚ :=
  (quantize scale (asI32 (roundAway (-low))) v).bind (dequantize scale (asI32 (roundAway (-low))))

/-- The decoder of what the encoder makes of the values. -/
theorem encode_decode_iff {scale : ℚ} {decoded : List ℚ}
    (hrange : widen (valueRange values) = (low, high)) (hscale : (high - low) / 255 = scale) :
    (∃ payload zeroPoint, Payload.encodeInt8 values = some payload ∧
        payload.int8Params = some (scale, zeroPoint) ∧ payload.decodeInt8 = some decoded) ↔
      values.mapM (fun v => requantize scale (low / scale) v.value) = some decoded := by
  have hmem := as_i32_mem (roundAway (-(low / scale)))
  have hread : (Int32.ofInt (asI32 (roundAway (-(low / scale))))).toInt =
      asI32 (roundAway (-(low / scale))) := Int32.toInt_ofInt_of_le hmem.1 (by omega)
  have hencode : Payload.encodeInt8 values =
      (values.mapM fun v => quantize scale (asI32 (roundAway (-(low / scale)))) v.value).bind
        fun bytes => some ⟨.int8, .ofNat values.length, bytes,
          some (scale, .ofInt (asI32 (roundAway (-(low / scale)))))⟩ := by
    rw [Payload.encodeInt8, hrange, ← neg_div, ← hscale]
    rfl
  unfold requantize
  rw [← map_m_bind (fun v : FloatValue =>
    quantize scale (asI32 (roundAway (-(low / scale)))) v.value), Option.bind_eq_some_iff]
  constructor
  · rintro ⟨payload, zeroPoint, hpayload, -, hdecode⟩
    rw [hencode] at hpayload
    obtain ⟨bytes, hbytes, hpayload⟩ := Option.bind_eq_some_iff.mp hpayload
    cases hpayload
    refine ⟨bytes, hbytes, ?_⟩
    rw [← hread]
    exact hdecode
  · rintro ⟨bytes, hbytes, hdecode⟩
    refine ⟨_, _, hencode.trans (by rw [hbytes]; rfl), rfl, ?_⟩
    rw [← hread] at hdecode
    exact hdecode

/-- The error is within half a step when it is so in units of the step. -/
theorem requantize_error_iff {scale v decoded : ℚ} (hscale : 0 < scale) :
    |decoded - v| ≤ scale / 2 ↔ |decoded / scale - v / scale| ≤ 1 / 2 := by
  rw [← sub_div, abs_div, abs_of_pos hscale, div_le_iff₀ hscale]
  constructor <;> intro h <;> linarith

/-- The scale is a 255th of the range. -/
theorem encode_int8_scale {payload : Payload ℚ} {scale : ℚ} {zeroPoint : Int32}
    (hrange : widen (valueRange values) = (low, high))
    (h : Payload.encodeInt8 values = some payload)
    (hparams : payload.int8Params = some (scale, zeroPoint)) : scale = (high - low) / 255 := by
  rw [Payload.encodeInt8, hrange] at h
  obtain ⟨bytes, -, hpayload⟩ := Option.bind_eq_some_iff.mp h
  cases hpayload
  cases hparams
  rfl

/-- A value in reach comes back as its level. -/
theorem requantize_of_reach {scale v : ℚ} (hscale : 0 < scale) (hlow : low ≤ v)
    (hhigh : v ≤ low + 255 * scale) (hv : |v / scale| ≤ 2 ^ 31 - 1 / 2)
    (hroom : low / scale ≤ 2 ^ 31 - 1) :
    requantize scale (low / scale) v = some (levelOf (low / scale) (v / scale) * scale) ∧
      |levelOf (low / scale) (v / scale) * scale - v| ≤ scale / 2 := by
  have hbelow : low / scale ≤ v / scale := div_le_div_of_nonneg_right hlow hscale.le
  have habove : v / scale ≤ low / scale + 255 := by
    rw [div_le_iff₀ hscale, add_mul, div_mul_cancel₀ _ hscale.ne']
    exact hhigh
  obtain ⟨⟨hsumLow, hsumHigh⟩, hlevel, herror⟩ := level_of_spec hbelow habove hv hroom
  constructor
  · exact dequantize_quantize_eq_some_iff.mpr ⟨⟨by omega, by omega⟩, hlevel, rfl⟩
  · rw [requantize_error_iff hscale, mul_div_cancel_right₀ _ hscale.ne']
    exact herror

/-- A value that comes back within half a step is in reach. -/
theorem reach_of_requantize {scale v decoded : ℚ} (hscale : 0 < scale)
    (h : requantize scale (low / scale) v = some decoded) (herror : |decoded - v| ≤ scale / 2) :
    |v / scale| ≤ 2 ^ 31 - 1 / 2 := by
  obtain ⟨-, hhigh, rfl⟩ := dequantize_quantize_eq_some_iff.mp h
  have hlow : ((-(2 ^ 31) + 1 : ℤ) : ℚ) ≤ levelOf (low / scale) (v / scale) :=
    Int.cast_le.mpr (lt_level_of _ _)
  have hhigh : (levelOf (low / scale) (v / scale) : ℚ) ≤ ((2 ^ 31 - 1 : ℤ) : ℚ) :=
    Int.cast_le.mpr hhigh
  rw [requantize_error_iff hscale, mul_div_cancel_right₀ _ hscale.ne'] at herror
  obtain ⟨hbelow, habove⟩ := abs_le.mp herror
  push_cast at hlow hhigh
  rw [abs_le]
  constructor <;> linarith

/-- A value in reach leaves room for the zero point of the least one. -/
theorem low_steps_le {scale : ℚ} (hscale : 0 < scale) {v : ℚ} (hle : low + scale ≤ v)
    (hv : |v / scale| ≤ 2 ^ 31 - 1 / 2) : low / scale ≤ 2 ^ 31 - 1 := by
  have hstep : low / scale + 1 ≤ v / scale := by
    rw [le_div_iff₀ hscale, add_mul, div_mul_cancel₀ _ hscale.ne', one_mul]
    exact hle
  have hbound := (abs_le.mp hv).2
  linarith

/-- The values that come back are in the order of the values. -/
theorem requantize_mono {scale v v' decoded decoded' : ℚ} (hscale : 0 < scale)
    (h : requantize scale (low / scale) v = some decoded)
    (h' : requantize scale (low / scale) v' = some decoded') (hle : v ≤ v') :
    decoded ≤ decoded' := by
  obtain ⟨-, -, rfl⟩ := dequantize_quantize_eq_some_iff.mp h
  obtain ⟨-, -, rfl⟩ := dequantize_quantize_eq_some_iff.mp h'
  have hlevel := level_of_mono (low / scale) (div_le_div_of_nonneg_right hle hscale.le)
  exact mul_le_mul_of_nonneg_right (Int.cast_le.mpr hlevel) hscale.le

/-- A vector round-trips exactly when every value of it is in reach. -/
theorem int8_round_trip_iff (first : FloatValue) (rest : List FloatValue) :
    RoundTrips (first :: rest) ↔ ∀ v ∈ first :: rest, InReach (first :: rest) v := by
  have hspans := widen_spans (List.cons_ne_nil first rest)
  generalize first :: rest = values at hspans ⊢
  generalize hrange : widen (valueRange values) = range at hspans
  obtain ⟨low, high⟩ := range
  have hpositive : 0 < (high - low) / 255 := div_pos (sub_pos.mpr hspans.positive) (by norm_num)
  -- in reach means near enough to zero in steps
  have hreach : (∀ v ∈ values, InReach values v) ↔
      ∀ v ∈ values, |v.value / ((high - low) / 255)| ≤ 2 ^ 31 - 1 / 2 :=
    forall₂_congr fun v hv => in_reach_iff hspans hv
  obtain ⟨v, hv, hroom⟩ := hspans.room
  rw [hreach]
  generalize hscale : (high - low) / 255 = scale at hpositive hroom ⊢
  constructor
  · rintro ⟨payload, scale', zeroPoint, decoded, hencode, hparams, hdecode, -, herror, -⟩ v hv
    obtain rfl : scale' = scale := (encode_int8_scale hrange hencode hparams).trans hscale
    have hmap := (encode_decode_iff hrange hscale).mp
      ⟨payload, zeroPoint, hencode, hparams, hdecode⟩
    obtain ⟨-, hpairs, hall⟩ := zip_of_map_m hmap
    obtain ⟨result, hresult⟩ := hall v hv
    exact reach_of_requantize hpositive (hpairs (v, result) hresult) (herror (v, result) hresult)
  · intro hsteps
    have hlow := low_steps_le hpositive hroom (hsteps v hv)
    have hvalue : ∀ v ∈ values, requantize scale (low / scale) v.value =
          some (levelOf (low / scale) (v.value / scale) * scale) ∧
        |levelOf (low / scale) (v.value / scale) * scale - v.value| ≤ scale / 2 := by
      intro v hv
      have hhigh : low + 255 * scale = high := by
        rw [← hscale]
        ring
      obtain ⟨hcoversLow, hcoversHigh⟩ := hspans.covers v hv
      exact requantize_of_reach hpositive hcoversLow (hcoversHigh.trans_eq hhigh.symm)
        (hsteps v hv) hlow
    have hmap : values.mapM (fun v => requantize scale (low / scale) v.value) =
        some (values.map fun v => levelOf (low / scale) (v.value / scale) * scale) :=
      map_m_of_eq_some fun v hv => (hvalue v hv).1
    obtain ⟨payload, zeroPoint, hencode, hparams, hdecode⟩ :=
      (encode_decode_iff hrange hscale).mpr hmap
    obtain ⟨hlength, hpairs, -⟩ := zip_of_map_m hmap
    refine ⟨payload, scale, zeroPoint, _, hencode, hparams, hdecode, hlength, ?_, ?_⟩
    · intro pair hpair
      have hresult : requantize scale (low / scale) pair.1.value = some pair.2 :=
        hpairs pair hpair
      obtain ⟨hsome, herror⟩ := hvalue pair.1 (List.of_mem_zip hpair).1
      obtain hsame := Option.some.inj (hsome.symm.trans hresult)
      rwa [hsame] at herror
    · intro first hfirst second hsecond hle
      exact requantize_mono hpositive (hpairs first hfirst) (hpairs second hsecond) hle

/-- 2^25, which is too far from zero for the steps of a range of 2. -/
def largeValue : FloatValue := ⟨2 ^ 25, by norm_num [f32Max]⟩

/-- The decoder subtracts the zero point -2^31 from the byte 0. -/
theorem large_value_overflows : ¬ RoundTrips [largeValue] := by
  rintro ⟨payload, scale, zeroPoint, decoded, hencode, -, hdecode, -⟩
  have hnone : (Payload.encodeInt8 [largeValue]).bind Payload.decodeInt8 = none := by
    decide +kernel
  rw [hencode, Option.bind_some, hdecode] at hnone
  cases hnone

end LatentMesh.Core
