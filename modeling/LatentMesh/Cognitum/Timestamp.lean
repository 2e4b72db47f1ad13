import LatentMesh.Lib.Calendar
import LatentMesh.Lib.Digits

/-!
# Timestamps

`timestamp.rs`: the calendar date and the time of day of a number of seconds since 1970. The integer
operations of the source are checked, and none of them overflows (`civil_from_days_eq`). The
conversion is exact and keeps the order (`unix_to_iso8601_utc_exact`).
-/

namespace LatentMesh.Cognitum

open LatentMesh.Lib

/-- An `i64` result. -/
def checkedI64 (value : Int) : Option Int :=
  if -(2 ^ 63) ≤ value ∧ value < 2 ^ 63 then some value else none

/-- A `u64` result. -/
def checkedU64 (value : Int) : Option Int :=
  if 0 ≤ value ∧ value < 2 ^ 64 then some value else none

/-- `as u32`. -/
def asU32 (value : Int) : Int := value % 2 ^ 32

/-- `civil_from_days`. The quotients and remainders are those of `div_euclid` and `rem_euclid`. -/
def civilFromDays (daysSinceEpoch : Int) : Option Date := do
  let z ← checkedI64 (daysSinceEpoch + 719468)
  let era := z / 146097
  let doe := z % 146097
  let yoe ← checkedU64 (doe - doe / 1460)
  let yoe ← checkedU64 (yoe + doe / 36524)
  let yoe ← checkedU64 (yoe - doe / 146096)
  let yoe := yoe / 365
  let eraYear ← checkedI64 (era * 400)
  let year ← checkedI64 (yoe + eraYear)
  let yearDays ← checkedU64 (365 * yoe)
  let yearDays ← checkedU64 (yearDays + yoe / 4)
  let yearDays ← checkedU64 (yearDays - yoe / 100)
  let doy ← checkedU64 (doe - yearDays)
  let mp ← checkedU64 (5 * doy)
  let mp ← checkedU64 (mp + 2)
  let mp := mp / 153
  let monthDays ← checkedU64 (153 * mp)
  let monthDays ← checkedU64 (monthDays + 2)
  let day ← checkedU64 (doy - monthDays / 5)
  let day ← checkedU64 (day + 1)
  let month ← checkedU64 (if mp < 10 then mp + 3 else mp - 9)
  let year ← checkedI64 (if asU32 month ≤ 2 then year + 1 else year)
  some ⟨year, asU32 month, asU32 day⟩

/-- The numbers that are formatted. -/
@[ext]
structure Timestamp where
  date : Date
  hour : Int
  minute : Int
  second : Int
  deriving DecidableEq, Repr

/-- The fields of a timestamp, with every operation checked for overflow. -/
def timestampOf (unixSecs : Int64) : Option Timestamp := do
  let days := unixSecs.toInt / 86400
  let secsOfDay := unixSecs.toInt % 86400
  let date ← civilFromDays days
  some ⟨date, secsOfDay / 3600, secsOfDay % 3600 / 60, secsOfDay % 60⟩

/-- The format `{:0width}` of a signed number. The sign counts. -/
def paddedInt (width : Nat) (value : Int) : String :=
  if value < 0 then "-" ++ padded (width - 1) value.natAbs else padded width value.natAbs

/-- The text of a timestamp. -/
def Timestamp.text (self : Timestamp) : String :=
  paddedInt 4 self.date.year ++ "-" ++ paddedInt 2 self.date.month ++ "-" ++
    paddedInt 2 self.date.day ++ "T" ++ paddedInt 2 self.hour ++ ":" ++ paddedInt 2 self.minute ++
    ":" ++ paddedInt 2 self.second ++ "Z"

/-- `unix_to_iso8601_utc`. -/
def unixToIso8601Utc (unixSecs : Int64) : Option String := (timestampOf unixSecs).map Timestamp.text

example : unixToIso8601Utc 1777562280 = some "2026-04-30T15:18:00Z" := by decide

/-! ## Dates -/

/-- A value of 64 bits is computed without overflow. -/
theorem checked_i64_eq {value : Int} (h : -(2 ^ 63) ≤ value ∧ value < 2 ^ 63) :
    checkedI64 value = some value := if_pos h

/-- A value of 64 bits without sign is computed without overflow. -/
theorem checked_u64_eq {value : Int} (h : 0 ≤ value ∧ value < 2 ^ 64) :
    checkedU64 value = some value := if_pos h

/-- The year of the era. -/
theorem year_of_era_eq {century group year day doe : Int} (hcentury : 0 ≤ century ∧ century ≤ 3)
    (hgroup : 0 ≤ group ∧ group ≤ 24) (hyear : 0 ≤ year ∧ year ≤ 3) (hday : 0 ≤ day ∧ day ≤ 365)
    (hlast : day = 365 → year = 3 ∧ (group = 24 → century = 3))
    (hdoe : doe = 36524 * century + 1461 * group + 365 * year + day) :
    (doe - doe / 1460 + doe / 36524 - doe / 146096) / 365 = 100 * century + 4 * group + year := by
  have hgroups : doe / 1460 =
      25 * century + group + (24 * century + group + 365 * year + day) / 1460 := by omega
  have hcenturies : doe / 36524 = century + (1461 * group + 365 * year + day) / 36524 := by omega
  have hera : doe / 146096 = (1461 * group + 365 * year + day) / 36524 := by
    obtain ⟨hlow, hhigh⟩ := hcentury
    interval_cases century <;> omega
  rw [hgroups, hcenturies, hera]
  omega

/-- A value of 32 bits is kept by the cast. -/
theorem as_u32_eq {value : Int} (h : 0 ≤ value ∧ value < 2 ^ 32) : asU32 value = value :=
  Int.emod_eq_of_lt h.1 h.2

/-- The date of a day of a year that begins in March. -/
def dateOf (marchYear mp doy : Int) : Date :=
  let month := if mp < 10 then mp + 3 else mp - 9
  ⟨if month ≤ 2 then marchYear + 1 else marchYear, month, doy - (153 * mp + 2) / 5 + 1⟩

/-- The date of a day of the year is valid. -/
theorem date_of_valid {marchYear mp doy : Int} (hdoy : 0 ≤ doy ∧ doy ≤ 365)
    (hlast : doy = 365 → IsLeap (marchYear + 1)) (hmp : mp = (5 * doy + 2) / 153) :
    (dateOf marchYear mp doy).Valid ∧ (dateOf marchYear mp doy).marchYear = marchYear ∧
      (dateOf marchYear mp doy).dayOfYear = doy := by
  have hlow : 0 ≤ mp := by omega
  have hhigh : mp ≤ 11 := by omega
  refine ⟨⟨?_, ?_, ?_, ?_⟩, ?_, ?_⟩
  · show 1 ≤ if mp < 10 then mp + 3 else mp - 9
    split <;> omega
  · show (if mp < 10 then mp + 3 else mp - 9) ≤ 12
    split <;> omega
  · show 1 ≤ doy - (153 * mp + 2) / 5 + 1
    omega
  · -- February is the last month of the year
    unfold dateOf daysInMonth
    dsimp only
    by_cases hleap : IsLeap (marchYear + 1)
    · interval_cases mp <;> norm_num [hleap] <;> omega
    · have hshort : doy ≠ 365 := fun h => hleap (hlast h)
      interval_cases mp <;> norm_num [hleap] <;> omega
  · unfold dateOf Date.marchYear
    dsimp only
    interval_cases mp <;> norm_num
  · unfold dateOf Date.dayOfYear Date.marchMonth
    dsimp only
    interval_cases mp <;> norm_num <;> omega

/-- The days of the era before the year. -/
theorem year_days_eq {century group year : Int} (hgroup : 0 ≤ group ∧ group ≤ 24)
    (hyear : 0 ≤ year ∧ year ≤ 3) :
    365 * (100 * century + 4 * group + year) + (100 * century + 4 * group + year) / 4 -
        (100 * century + 4 * group + year) / 100 =
      36524 * century + 1461 * group + 365 * year := by
  omega

/-- The year that ends with an extra day is a leap year. -/
theorem is_leap_of_last {century group year era : Int} (hgroup : 0 ≤ group ∧ group ≤ 24)
    (hyear : year = 3) (hlast : group = 24 → century = 3) :
    IsLeap (100 * century + 4 * group + year + era * 400 + 1) := by
  unfold IsLeap
  omega

/-- The day of an era and its day in it. -/
theorem days_of_era {era yoe : Int} (hyoe : 0 ≤ yoe ∧ yoe < 400) :
    Date.daysBefore (yoe + era * 400) = 146097 * era + (365 * yoe + yoe / 4 - yoe / 100) := by
  unfold Date.daysBefore
  omega

/-! ## The integer operations -/

/-- The steps from the day of the era stay in range. -/
theorem era_ranges {doe : Int} (h : 0 ≤ doe ∧ doe < 146097) :
    (0 ≤ doe - doe / 1460 ∧ doe - doe / 1460 < 2 ^ 64) ∧
      (0 ≤ doe - doe / 1460 + doe / 36524 ∧ doe - doe / 1460 + doe / 36524 < 2 ^ 64) ∧
      (0 ≤ doe - doe / 1460 + doe / 36524 - doe / 146096 ∧
        doe - doe / 1460 + doe / 36524 - doe / 146096 < 2 ^ 64) := by
  refine ⟨⟨?_, ?_⟩, ⟨?_, ?_⟩, ⟨?_, ?_⟩⟩ <;> omega

/-- The steps from the year of the era stay in range. -/
theorem year_ranges {yoe : Int} (h : 0 ≤ yoe ∧ yoe < 400) :
    (0 ≤ 365 * yoe ∧ 365 * yoe < 2 ^ 64) ∧
      (0 ≤ 365 * yoe + yoe / 4 ∧ 365 * yoe + yoe / 4 < 2 ^ 64) ∧
      (0 ≤ 365 * yoe + yoe / 4 - yoe / 100 ∧ 365 * yoe + yoe / 4 - yoe / 100 < 2 ^ 64) := by
  refine ⟨⟨?_, ?_⟩, ⟨?_, ?_⟩, ⟨?_, ?_⟩⟩ <;> omega

/-- The steps from the day of the year stay in range. -/
theorem day_ranges {doy mp : Int} (h : 0 ≤ doy ∧ doy ≤ 365) (hmp : (5 * doy + 2) / 153 = mp) :
    (0 ≤ 5 * doy ∧ 5 * doy < 2 ^ 64) ∧ (0 ≤ 5 * doy + 2 ∧ 5 * doy + 2 < 2 ^ 64) ∧
      (0 ≤ 153 * mp ∧ 153 * mp < 2 ^ 64) ∧ (0 ≤ 153 * mp + 2 ∧ 153 * mp + 2 < 2 ^ 64) ∧
      (0 ≤ doy - (153 * mp + 2) / 5 ∧ doy - (153 * mp + 2) / 5 < 2 ^ 64) ∧
      (0 ≤ doy - (153 * mp + 2) / 5 + 1 ∧ doy - (153 * mp + 2) / 5 + 1 < 2 ^ 32) ∧
      (0 ≤ mp ∧ mp ≤ 11) := by
  refine ⟨⟨?_, ?_⟩, ⟨?_, ?_⟩, ⟨?_, ?_⟩, ⟨?_, ?_⟩, ⟨?_, ?_⟩, ⟨?_, ?_⟩, ⟨?_, ?_⟩⟩ <;> omega

/-- A computation goes on with the value of its first step. -/
theorem bind_of_eq_some {α β : Type} {first : Option α} {rest : α → Option β} {value : α}
    {result : Option β} (hfirst : first = some value) (hrest : rest value = result) :
    first.bind rest = result := by
  rw [hfirst]
  exact hrest

/-- The month stays in range. -/
theorem month_range {mp : Int} (hmp : 0 ≤ mp ∧ mp ≤ 11) :
    0 ≤ (if mp < 10 then mp + 3 else mp - 9) ∧ (if mp < 10 then mp + 3 else mp - 9) < 2 ^ 32 := by
  split <;> omega

/-- No operation overflows. -/
theorem civil_from_days_of {days era doe yoe doy mp : Int}
    (hz : -(2 ^ 63) ≤ days + 719468 ∧ days + 719468 < 2 ^ 63)
    (he : (days + 719468) / 146097 = era) (hera : -(2 ^ 50) ≤ era ∧ era < 2 ^ 50)
    (hd : (days + 719468) % 146097 = doe) (hdoe : 0 ≤ doe ∧ doe < 146097)
    (hy : (doe - doe / 1460 + doe / 36524 - doe / 146096) / 365 = yoe)
    (hyoe : 0 ≤ yoe ∧ yoe < 400) (hdoy : 0 ≤ doy ∧ doy ≤ 365)
    (hday : doe - (365 * yoe + yoe / 4 - yoe / 100) = doy) (hmp : (5 * doy + 2) / 153 = mp) :
    civilFromDays days = some (dateOf (yoe + era * 400) mp doy) := by
  obtain ⟨hera₁, hera₂, hera₃⟩ := era_ranges hdoe
  obtain ⟨hyear₁, hyear₂, hyear₃⟩ := year_ranges hyoe
  obtain ⟨hday₁, hday₂, hday₃, hday₄, hday₅, hday₆, hmonths⟩ := day_ranges hdoy hmp
  obtain ⟨hmonth, hmonth'⟩ := month_range hmonths
  have hdoyRange : 0 ≤ doy ∧ doy < 2 ^ 64 := ⟨hdoy.1, hdoy.2.trans_lt (by decide)⟩
  have hdayRange : 0 ≤ doy - (153 * mp + 2) / 5 + 1 ∧ doy - (153 * mp + 2) / 5 + 1 < 2 ^ 64 :=
    ⟨hday₆.1, hday₆.2.trans (by decide)⟩
  have heraYear : -(2 ^ 63) ≤ era * 400 ∧ era * 400 < 2 ^ 63 := by
    clear hy hday hmp he hd hz
    omega
  have hyear : -(2 ^ 63) ≤ yoe + era * 400 ∧ yoe + era * 400 < 2 ^ 63 := by
    clear hy hday hmp he hd hz
    omega
  have hlastYear : -(2 ^ 63) ≤ (if (if mp < 10 then mp + 3 else mp - 9) ≤ 2 then
      yoe + era * 400 + 1 else yoe + era * 400) ∧ (if (if mp < 10 then mp + 3 else mp - 9) ≤ 2 then
      yoe + era * 400 + 1 else yoe + era * 400) < 2 ^ 63 := by
    clear hy hday hmp he hd hz
    split <;> omega
  have hmonthRange := And.intro hmonth (hmonth'.trans (by decide : (2 : Int) ^ 32 < 2 ^ 64))
  subst hmp hday hy hd he
  -- one line for each operation of the source, in its order
  refine bind_of_eq_some (checked_i64_eq hz) ?_
  refine bind_of_eq_some (checked_u64_eq hera₁) ?_
  refine bind_of_eq_some (checked_u64_eq hera₂) ?_
  refine bind_of_eq_some (checked_u64_eq hera₃) ?_
  refine bind_of_eq_some (checked_i64_eq heraYear) ?_
  refine bind_of_eq_some (checked_i64_eq hyear) ?_
  refine bind_of_eq_some (checked_u64_eq hyear₁) ?_
  refine bind_of_eq_some (checked_u64_eq hyear₂) ?_
  refine bind_of_eq_some (checked_u64_eq hyear₃) ?_
  refine bind_of_eq_some (checked_u64_eq hdoyRange) ?_
  refine bind_of_eq_some (checked_u64_eq hday₁) ?_
  refine bind_of_eq_some (checked_u64_eq hday₂) ?_
  refine bind_of_eq_some (checked_u64_eq hday₃) ?_
  refine bind_of_eq_some (checked_u64_eq hday₄) ?_
  refine bind_of_eq_some (checked_u64_eq hday₅) ?_
  refine bind_of_eq_some (checked_u64_eq hdayRange) ?_
  refine bind_of_eq_some (checked_u64_eq hmonthRange) ?_
  rw [as_u32_eq ⟨hmonth, hmonth'⟩, as_u32_eq hday₆]
  exact bind_of_eq_some (checked_i64_eq hlastYear) rfl

/-- The result is the date of the day. -/
theorem civil_from_days_eq {days : Int} (hlow : -(2 ^ 50) ≤ days) (hhigh : days < 2 ^ 50) :
    ∃ date, civilFromDays days = some date ∧ date.Valid ∧ date.daysFromCivil = days := by
  have hdoe : 0 ≤ (days + 719468) % 146097 ∧ (days + 719468) % 146097 < 146097 :=
    ⟨Int.emod_nonneg _ (by decide), Int.emod_lt_of_pos _ (by decide)⟩
  obtain ⟨century, group, place, doy, hcentury, hgroup, hplace, hdoy, hlast, hcycle⟩ :=
    Date.exists_cycle hdoe.1 hdoe.2
  have hera := Int.mul_ediv_add_emod (days + 719468) 146097
  have heraRange : -(2 ^ 50) ≤ (days + 719468) / 146097 ∧ (days + 719468) / 146097 < 2 ^ 50 := by
    clear hcycle
    omega
  have hyoe := year_of_era_eq hcentury hgroup hplace hdoy hlast hcycle
  have hleap : doy = 365 → IsLeap (100 * century + 4 * group + place +
      (days + 719468) / 146097 * 400 + 1) := fun h =>
    is_leap_of_last hgroup (hlast h).1 (hlast h).2
  have hyearDays : (days + 719468) % 146097 - (365 * (100 * century + 4 * group + place) +
      (100 * century + 4 * group + place) / 4 - (100 * century + 4 * group + place) / 100) =
      doy := by
    rw [year_days_eq hgroup hplace, hcycle]
    exact add_sub_cancel_left _ _
  have hyear : 0 ≤ 100 * century + 4 * group + place ∧
      100 * century + 4 * group + place < 400 := by
    clear hyoe hyearDays hera hcycle heraRange
    omega
  -- the century, the group and the year have done their work
  generalize 100 * century + 4 * group + place = yoe at hyoe hleap hyearDays hyear
  obtain ⟨hvalid, hmarchYear, hdayOfYear⟩ := date_of_valid hdoy hleap rfl
  refine ⟨_, civil_from_days_of ⟨by omega, by omega⟩ rfl heraRange rfl hdoe hyoe hyear hdoy
    hyearDays rfl, hvalid, ?_⟩
  rw [Date.days_from_civil_eq, hmarchYear, hdayOfYear, days_of_era hyear]
  clear hyoe hcycle
  omega

/-! ## Seconds -/

namespace Timestamp

variable {stamp other : Timestamp}

/-- A valid date with a time of day. -/
def Valid (stamp : Timestamp) : Prop :=
  stamp.date.Valid ∧ (0 ≤ stamp.hour ∧ stamp.hour < 24) ∧ (0 ≤ stamp.minute ∧ stamp.minute < 60) ∧
    (0 ≤ stamp.second ∧ stamp.second < 60)

/-- The seconds since 1970. -/
def seconds (stamp : Timestamp) : Int :=
  stamp.date.daysFromCivil * 86400 + stamp.hour * 3600 + stamp.minute * 60 + stamp.second

/-- The date, the hour, the minute and the second, in the order that they count. -/
def Before (stamp other : Timestamp) : Prop :=
  stamp.date.Before other.date ∨ stamp.date = other.date ∧
    (stamp.hour < other.hour ∨ stamp.hour = other.hour ∧
      (stamp.minute < other.minute ∨ stamp.minute = other.minute ∧ stamp.second < other.second))

/-- Later timestamps have more seconds. -/
theorem seconds_lt_of_before (hstamp : stamp.Valid) (hother : other.Valid)
    (h : stamp.Before other) : stamp.seconds < other.seconds := by
  obtain ⟨hdate, hhour, hminute, hsecond⟩ := hstamp
  obtain ⟨hdate', hhour', hminute', hsecond'⟩ := hother
  unfold seconds
  rcases h with hbefore | ⟨hsame, hlater⟩
  · have hdays := Date.days_lt_of_lt hdate hdate' hbefore
    omega
  · rw [hsame]
    omega

/-- Of two different timestamps one is before the other. -/
theorem before_trichotomy (stamp other : Timestamp) :
    stamp.Before other ∨ stamp = other ∨ other.Before stamp := by
  obtain ⟨date, hour, minute, second⟩ := stamp
  obtain ⟨date', hour', minute', second'⟩ := other
  unfold Before
  dsimp only
  rcases Date.before_trichotomy date date' with hbefore | rfl | hafter
  · exact Or.inl (Or.inl hbefore)
  · have htime : (hour < hour' ∨ hour = hour' ∧
        (minute < minute' ∨ minute = minute' ∧ second < second')) ∨
        (hour = hour' ∧ minute = minute' ∧ second = second') ∨
        (hour' < hour ∨ hour' = hour ∧
          (minute' < minute ∨ minute' = minute ∧ second' < second)) := by omega
    rcases htime with hless | ⟨rfl, rfl, rfl⟩ | hmore
    · exact Or.inl (Or.inr ⟨rfl, hless⟩)
    · exact Or.inr (Or.inl rfl)
    · exact Or.inr (Or.inr (Or.inr ⟨rfl, hmore⟩))
  · exact Or.inr (Or.inr (Or.inl hafter))

/-- Fewer seconds are an earlier timestamp. -/
theorem before_of_seconds_lt (hstamp : stamp.Valid) (hother : other.Valid)
    (h : stamp.seconds < other.seconds) : stamp.Before other := by
  rcases before_trichotomy stamp other with hbefore | rfl | hafter
  · exact hbefore
  · exact absurd h (lt_irrefl _)
  · exact absurd h (seconds_lt_of_before hother hstamp hafter).not_gt

/-! ## Texts -/

/-- A value below 100 is padded to two digits. -/
theorem two_digits {value : Int} (h : 0 ≤ value ∧ value < 100) :
    (paddedInt 2 value).toList.length = 2 := by
  obtain ⟨n, rfl⟩ := Int.eq_ofNat_of_zero_le h.1
  have hlength : ∀ n < 100, (padded 2 n).toList.length = 2 := by decide
  rw [paddedInt, if_neg (Int.natCast_nonneg n).not_gt]
  exact hlength n (Int.ofNat_lt.mp h.2)

/-- A number with a sign is padded to another text than one without. -/
theorem padded_ne_signed {width n m : Nat} : "-" ++ padded width n ≠ padded (width + 1) m := by
  intro h
  have hsign : '-' ∈ (padded (width + 1) m).toList := by
    rw [← h, String.toList_append]
    exact List.mem_append_left _ List.mem_cons_self
  exact absurd (is_digit_of_mem_padded hsign) (by decide)

/-- The padded text of an integer tells it. -/
theorem padded_int_inj {width : Nat} {value value' : Int}
    (h : paddedInt (width + 1) value = paddedInt (width + 1) value') : value = value' := by
  unfold paddedInt at h
  rw [Nat.add_sub_cancel] at h
  split at h <;> split at h
  · have hdigits := congrArg String.toList h
    rw [String.toList_append, String.toList_append, List.append_cancel_left_eq] at hdigits
    have habs := padded_inj (String.toList_injective hdigits)
    omega
  · exact absurd h padded_ne_signed
  · exact absurd h.symm padded_ne_signed
  · have habs := padded_inj h
    omega

/-- The characters of the text. All but the year have a fixed length. -/
theorem text_to_list (stamp : Timestamp) :
    stamp.text.toList = (paddedInt 4 stamp.date.year).toList ++
      ('-' :: ((paddedInt 2 stamp.date.month).toList ++
      ('-' :: ((paddedInt 2 stamp.date.day).toList ++
      ('T' :: ((paddedInt 2 stamp.hour).toList ++
      (':' :: ((paddedInt 2 stamp.minute).toList ++
      (':' :: ((paddedInt 2 stamp.second).toList ++ ['Z']))))))))))  := by
  unfold text
  simp only [String.toList_append, List.append_assoc]
  rfl

/-- The texts of two fields between 0 and 99 have the same length. -/
theorem field_inj {c : Char} {value value' : Int} {rest rest' : List Char}
    (h : c :: ((paddedInt 2 value).toList ++ rest) = c :: ((paddedInt 2 value').toList ++ rest'))
    (hvalue : 0 ≤ value ∧ value < 100) (hvalue' : 0 ≤ value' ∧ value' < 100) :
    value = value' ∧ rest = rest' := by
  have hlength : (paddedInt 2 value).toList.length = (paddedInt 2 value').toList.length :=
    (two_digits hvalue).trans (two_digits hvalue').symm
  obtain ⟨hfirst, hrest⟩ := List.append_inj (List.cons.inj h).2 hlength
  exact ⟨padded_int_inj (String.toList_injective hfirst), hrest⟩

/-- The text after the year. -/
theorem rest_length {stamp : Timestamp} (h : stamp.Valid) :
    (('-' :: ((paddedInt 2 stamp.date.month).toList ++
      ('-' :: ((paddedInt 2 stamp.date.day).toList ++
      ('T' :: ((paddedInt 2 stamp.hour).toList ++
      (':' :: ((paddedInt 2 stamp.minute).toList ++
      (':' :: ((paddedInt 2 stamp.second).toList ++ ['Z'])))))))))) : List Char).length = 16 := by
  obtain ⟨⟨hmonth, hmonth', hday, hday'⟩, hhour, hminute, hsecond⟩ := h
  have hmonths := hday'.trans (days_in_month_le _ _)
  simp only [List.length_cons, List.length_append, List.length_nil,
    two_digits (show 0 ≤ stamp.date.month ∧ stamp.date.month < 100 by omega),
    two_digits (show 0 ≤ stamp.date.day ∧ stamp.date.day < 100 by omega),
    two_digits (show 0 ≤ stamp.hour ∧ stamp.hour < 100 by omega),
    two_digits (show 0 ≤ stamp.minute ∧ stamp.minute < 100 by omega),
    two_digits (show 0 ≤ stamp.second ∧ stamp.second < 100 by omega)]

/-- Only one timestamp has the text. -/
theorem text_inj (hstamp : stamp.Valid) (hother : other.Valid) (h : stamp.text = other.text) :
    stamp = other := by
  have hchars := congrArg String.toList h
  rw [text_to_list, text_to_list] at hchars
  obtain ⟨hyear, hrest⟩ := List.append_inj' hchars
    ((rest_length hstamp).trans (rest_length hother).symm)
  obtain ⟨⟨hlow, hhigh, hday, hday'⟩, hhour, hminute, hsecond⟩ := hstamp
  obtain ⟨⟨holow, hohigh, hoday, hoday'⟩, hohour, hominute, hosecond⟩ := hother
  have hmonthDays := hday'.trans (days_in_month_le _ _)
  have homonthDays := hoday'.trans (days_in_month_le _ _)
  obtain ⟨hmonth, hrest⟩ := field_inj hrest (by omega) (by omega)
  obtain ⟨hday, hrest⟩ := field_inj hrest (by omega) (by omega)
  obtain ⟨hhour, hrest⟩ := field_inj hrest (by omega) (by omega)
  obtain ⟨hminute, hrest⟩ := field_inj hrest (by omega) (by omega)
  obtain ⟨hsecond, -⟩ := field_inj hrest (by omega) (by omega)
  have hdate : stamp.date = other.date :=
    Date.ext (padded_int_inj (String.toList_injective hyear)) hmonth hday
  exact Timestamp.ext hdate hhour hminute hsecond

end Timestamp

/-- Every number of seconds has a timestamp, without an overflow. -/
theorem timestamp_of_eq (unixSecs : Int64) :
    ∃ stamp, timestampOf unixSecs = some stamp ∧ stamp.Valid ∧ stamp.seconds = unixSecs.toInt := by
  have hlow := Int64.le_toInt unixSecs
  have hhigh := Int64.toInt_lt unixSecs
  obtain ⟨date, hdate, hvalid, hdays⟩ := @civil_from_days_eq (unixSecs.toInt / 86400)
    (by omega) (by omega)
  refine ⟨⟨date, unixSecs.toInt % 86400 / 3600, unixSecs.toInt % 86400 % 3600 / 60,
    unixSecs.toInt % 86400 % 60⟩, bind_of_eq_some hdate rfl, ⟨hvalid, ?_, ?_, ?_⟩, ?_⟩
  · dsimp only
    omega
  · dsimp only
    omega
  · dsimp only
    omega
  · unfold Timestamp.seconds
    dsimp only
    rw [hdays]
    omega

/-- The timestamp of a number of seconds is a date of the calendar and a time of that day, and has
this number of seconds. More seconds give a later timestamp and another text. -/
theorem unix_to_iso8601_utc_exact (unixSecs other : Int64) :
    ∃ stamp later, (timestampOf unixSecs = some stamp ∧
        unixToIso8601Utc unixSecs = some stamp.text ∧ stamp.Valid ∧
        stamp.seconds = unixSecs.toInt) ∧
      (timestampOf other = some later ∧ (unixSecs < other ↔ stamp.Before later)) ∧
      (unixToIso8601Utc unixSecs = unixToIso8601Utc other ↔ unixSecs = other) := by
  obtain ⟨stamp, hstamp, hvalid, hseconds⟩ := timestamp_of_eq unixSecs
  obtain ⟨later, hlater, hvalid', hseconds'⟩ := timestamp_of_eq other
  refine ⟨stamp, later, ⟨hstamp, by rw [unixToIso8601Utc, hstamp]; rfl, hvalid, hseconds⟩,
    ⟨hlater, ?_⟩, fun htext => ?_, fun hsame => hsame ▸ rfl⟩
  · rw [Int64.lt_iff_toInt_lt, ← hseconds, ← hseconds']
    exact ⟨Timestamp.before_of_seconds_lt hvalid hvalid',
      Timestamp.seconds_lt_of_before hvalid hvalid'⟩
  · rw [unixToIso8601Utc, hstamp, unixToIso8601Utc, hlater] at htext
    have hsame := Timestamp.text_inj hvalid hvalid' (Option.some.inj htext)
    rw [← Int64.toInt_inj, ← hseconds, ← hseconds', hsame]

end LatentMesh.Cognitum
