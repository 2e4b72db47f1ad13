import Mathlib.Data.List.Basic
import Mathlib.Tactic.IntervalCases
import Mathlib.Tactic.NormNum

/-!
# The Gregorian calendar

Dates of the proleptic Gregorian calendar, and their number of days since 1970-01-01. The years are
counted from March, so that a leap day is the last day of a year. The number grows with the date
(`Date.days_lt_of_lt`), and every day of a cycle of 400 years has its century, its group of four
years, its year and its place in the year (`Date.exists_cycle`).
-/

namespace LatentMesh.Lib

/-- A date of the proleptic Gregorian calendar, valid or not. -/
@[ext]
structure Date where
  year : Int
  month : Int
  day : Int
  deriving DecidableEq, Repr

/-- The Gregorian leap years. -/
def IsLeap (year : Int) : Prop := year % 4 = 0 ∧ (year % 100 ≠ 0 ∨ year % 400 = 0)

instance (year : Int) : Decidable (IsLeap year) := inferInstanceAs (Decidable (_ ∧ _))

/-- The number of days of a month in a year. -/
def daysInMonth (year month : Int) : Int :=
  if month = 2 then if IsLeap year then 29 else 28
  else if month = 4 ∨ month = 6 ∨ month = 9 ∨ month = 11 then 30
  else 31

theorem days_in_month_le (year month : Int) : daysInMonth year month ≤ 31 := by
  unfold daysInMonth
  split_ifs <;> decide

namespace Date

/-- A date of the calendar. -/
def Valid (date : Date) : Prop :=
  1 ≤ date.month ∧ date.month ≤ 12 ∧ 1 ≤ date.day ∧ date.day ≤ daysInMonth date.year date.month

/-- The year that began in March. -/
def marchYear (date : Date) : Int := if date.month ≤ 2 then date.year - 1 else date.year

/-- The months since March. -/
def marchMonth (date : Date) : Int := if date.month ≤ 2 then date.month + 9 else date.month - 3

/-- The days since the first of March. -/
def dayOfYear (date : Date) : Int := (153 * date.marchMonth + 2) / 5 + date.day - 1

/-- The days since 1970-01-01. -/
def daysFromCivil (date : Date) : Int :=
  let era := date.marchYear / 400
  let yoe := date.marchYear % 400
  let doe := yoe * 365 + yoe / 4 - yoe / 100 + date.dayOfYear
  era * 146097 + doe - 719468

example : daysFromCivil ⟨1970, 1, 1⟩ = 0 ∧ daysFromCivil ⟨2000, 2, 29⟩ = 11016 := by decide

variable {date other : Date}

/-! ## The order of dates -/

/-- The days before a year that begins in March. -/
def daysBefore (year : Int) : Int := 365 * year + year / 4 - year / 100 + year / 400

/-- The day number of a date, counted from the March that starts its year. -/
theorem days_from_civil_eq (date : Date) :
    date.daysFromCivil = daysBefore date.marchYear + date.dayOfYear - 719468 := by
  unfold daysFromCivil daysBefore
  dsimp only
  omega

/-- A month is as long as the days up to the next one, but for February. -/
theorem Valid.day_of_year (h : date.Valid) :
    0 ≤ date.marchMonth ∧ date.marchMonth ≤ 11 ∧
      (153 * date.marchMonth + 2) / 5 ≤ date.dayOfYear ∧
      (date.marchMonth < 11 → date.dayOfYear < (153 * (date.marchMonth + 1) + 2) / 5) ∧
      (date.dayOfYear ≤ 364 ∨ date.dayOfYear = 365 ∧ IsLeap (date.marchYear + 1)) := by
  obtain ⟨year, month, day⟩ := date
  obtain ⟨hmonth, hmonth', hday, hday'⟩ := h
  dsimp only at hmonth hmonth' hday hday'
  unfold dayOfYear marchMonth marchYear
  unfold daysInMonth at hday'
  dsimp only
  by_cases hfebruary : month = 2
  · subst hfebruary
    rw [if_pos rfl] at hday'
    split at hday'
    · rename_i hleap
      rw [if_pos (by decide), if_pos (by decide), Int.sub_add_cancel]
      have hlast : day = 29 → IsLeap year := fun _ => hleap
      -- only 29 February is the day 365
      by_cases h29 : day = 29
      · exact ⟨by omega, by omega, by omega, by omega, Or.inr ⟨by omega, hleap⟩⟩
      · exact ⟨by omega, by omega, by omega, by omega, Or.inl (by omega)⟩
    · rw [if_pos (by decide), if_pos (by decide)]
      exact ⟨by omega, by omega, by omega, by omega, Or.inl (by omega)⟩
  · rw [if_neg hfebruary] at hday'
    interval_cases month <;> simp at hday' <;>
      exact ⟨by norm_num, by norm_num, by norm_num; omega, by norm_num <;> omega,
        Or.inl (by norm_num; omega)⟩

/-- A leap day is the last day of its year. -/
theorem days_before_succ (year : Int) :
    daysBefore (year + 1) = daysBefore year + 365 + if IsLeap (year + 1) then 1 else 0 := by
  by_cases hleap : IsLeap (year + 1)
  · rw [if_pos hleap]
    unfold IsLeap at hleap
    unfold daysBefore
    omega
  · rw [if_neg hleap]
    unfold IsLeap at hleap
    unfold daysBefore
    omega

/-- Later years start on later days. -/
theorem days_before_mono {year year' : Int} (h : year ≤ year') :
    daysBefore year ≤ daysBefore year' := by
  unfold daysBefore
  omega

/-- The year, the month and the day of a date, in the order that they count. -/
def Before (date other : Date) : Prop :=
  date.year < other.year ∨ date.year = other.year ∧
    (date.month < other.month ∨ date.month = other.month ∧ date.day < other.day)

/-- Of two different dates one is before the other. -/
theorem before_trichotomy (date other : Date) :
    date.Before other ∨ date = other ∨ other.Before date := by
  obtain ⟨year, month, day⟩ := date
  obtain ⟨year', month', day'⟩ := other
  unfold Before
  rw [Date.mk.injEq]
  dsimp only
  omega

/-- A later date has more days before it. -/
theorem days_lt_of_lt (hdate : date.Valid) (hother : other.Valid) (h : date.Before other) :
    date.daysFromCivil < other.daysFromCivil := by
  obtain ⟨hmonth, hmonth', hstart, hend, hlength⟩ := hdate.day_of_year
  obtain ⟨homonth, homonth', hostart, hoend, -⟩ := hother.day_of_year
  have hposition : date.marchYear < other.marchYear ∨ date.marchYear = other.marchYear ∧
      (date.marchMonth < other.marchMonth ∨
        date.marchMonth = other.marchMonth ∧ date.day < other.day) := by
    obtain ⟨hm, hm', -⟩ := hdate
    obtain ⟨hn, hn', -⟩ := hother
    unfold Before at h
    unfold marchYear marchMonth
    split <;> split <;> omega
  rw [days_from_civil_eq, days_from_civil_eq]
  rcases hposition with hyear | ⟨hyear, hmonths | ⟨hmonths, hday⟩⟩
  · -- the year before ends before the later one begins
    have hsucc := days_before_succ date.marchYear
    have hmono := days_before_mono (show date.marchYear + 1 ≤ other.marchYear by omega)
    have hnonneg : 0 ≤ other.dayOfYear := by omega
    rcases hlength with hshort | ⟨hlong, hleap⟩
    · split at hsucc <;> omega
    · rw [if_pos hleap] at hsucc
      omega
  · -- the month before ends before the later one begins
    rw [hyear]
    have hlast := hend (by omega)
    omega
  · rw [hyear]
    unfold dayOfYear
    rw [hmonths]
    omega

/-! ## The days of a cycle -/

/-- Every day of 400 years lies in a century, a group of four years and a year of them. Only the
last year of a group has a day more, and the last group of a century only in the last century. -/
theorem exists_cycle {doe : Int} (hlow : 0 ≤ doe) (hhigh : doe < 146097) :
    ∃ century group year day : Int, (0 ≤ century ∧ century ≤ 3) ∧ (0 ≤ group ∧ group ≤ 24) ∧
      (0 ≤ year ∧ year ≤ 3) ∧ (0 ≤ day ∧ day ≤ 365) ∧
      (day = 365 → year = 3 ∧ (group = 24 → century = 3)) ∧
      doe = 36524 * century + 1461 * group + 365 * year + day := by
  generalize hcentury : min (doe / 36524) 3 = century
  generalize hrest : (doe - 36524 * century) % 1461 = rest
  refine ⟨century, (doe - 36524 * century) / 1461, min (rest / 365) 3,
    rest - 365 * min (rest / 365) 3, ?_⟩
  generalize hgroup : (doe - 36524 * century) / 1461 = group
  generalize hyear : min (rest / 365) 3 = year
  refine ⟨⟨?_, ?_⟩, ⟨?_, ?_⟩, ⟨?_, ?_⟩, ⟨?_, ?_⟩, fun hlast => ⟨?_, fun hgroup' => ?_⟩, ?_⟩ <;>
    omega

end Date

end LatentMesh.Lib
