import Mathlib.Tactic.IntervalCases
import Mathlib.Tactic.Ring

/-!
# The proleptic Gregorian calendar

Days are counted from 1 January 1970 and months from zero, as in the C library's
`struct tm`.  `dayNumber` counts forward from the leap-year rule and the month
lengths; `civilOfDay` inverts it through cycles of 400, 100, 4 and 1 years.
-/

namespace RinhaBackend.Foundation.Calendar

/-- One in a leap year, zero in a common year. -/
def leapDay (year : Int) : Int :=
  if year % 4 = 0 ∧ (year % 100 ≠ 0 ∨ year % 400 = 0) then 1 else 0

def daysBeforeYear (year : Int) : Int :=
  365 * (year - 1) + (year - 1) / 4 - (year - 1) / 100 + (year - 1) / 400

/-- Days before the first of the zero-based `month`, with `leap` leap days. -/
def daysBeforeMonth (leap : Int) : Nat → Int
  | 0 => 0
  | 1 => 31
  | 2 => 59 + leap
  | 3 => 90 + leap
  | 4 => 120 + leap
  | 5 => 151 + leap
  | 6 => 181 + leap
  | 7 => 212 + leap
  | 8 => 243 + leap
  | 9 => 273 + leap
  | 10 => 304 + leap
  | _ => 334 + leap

def daysInMonth (leap : Int) (month : Nat) : Int :=
  if month = 11 then 31
  else daysBeforeMonth leap (month + 1) - daysBeforeMonth leap month

/-- Days from 1 January 1970 to the given date. -/
def dayNumber (year : Int) (month : Nat) (day : Int) : Int :=
  daysBeforeYear year + daysBeforeMonth (leapDay year) month + (day - 1) - 719162

example : dayNumber 1970 0 1 = 0 := by decide
example : dayNumber 2000 1 29 = 11016 := by decide
example : dayNumber 9999 11 31 = 2932896 := by decide

/-! ## The year of a day -/

/-- The year holding the day `day`, counted from 1 January of year 1. -/
def yearOfDay (day : Int) : Int :=
  let era := day / 146097
  let dayOfEra := day % 146097
  let century := min (dayOfEra / 36524) 3
  let dayOfCentury := dayOfEra - 36524 * century
  let cycle := dayOfCentury / 1461
  let year := min (dayOfCentury % 1461 / 365) 3
  400 * era + 100 * century + 4 * cycle + year + 1

theorem daysBeforeYear_split (era : Int) {century cycle year : Int}
    (hcentury : 0 ≤ century ∧ century ≤ 3) (hcycle : 0 ≤ cycle ∧ cycle ≤ 24)
    (hyear : 0 ≤ year ∧ year ≤ 3) :
    daysBeforeYear (400 * era + 100 * century + 4 * cycle + year + 1) =
      146097 * era + 36524 * century + 1461 * cycle + 365 * year := by
  unfold daysBeforeYear
  have hfour : (400 * era + 100 * century + 4 * cycle + year + 1 - 1) / 4 =
      100 * era + 25 * century + cycle := by omega
  have hhundred : (400 * era + 100 * century + 4 * cycle + year + 1 - 1) / 100 =
      4 * era + century := by omega
  have hera : (400 * era + 100 * century + 4 * cycle + year + 1 - 1) / 400 =
      era := by omega
  rw [hfour, hhundred, hera]
  ring

theorem leapDay_bounds (year : Int) : 0 ≤ leapDay year ∧ leapDay year ≤ 1 := by
  unfold leapDay
  split_ifs <;> omega

theorem daysBeforeYear_succ (year : Int) :
    daysBeforeYear (year + 1) = daysBeforeYear year + 365 + leapDay year := by
  unfold daysBeforeYear leapDay
  split_ifs <;> omega

theorem daysBeforeYear_mono {first second : Int} (h : first ≤ second) :
    daysBeforeYear first ≤ daysBeforeYear second := by
  unfold daysBeforeYear
  omega

theorem yearOfDay_spec (day : Int) :
    daysBeforeYear (yearOfDay day) ≤ day ∧
      day < daysBeforeYear (yearOfDay day + 1) := by
  unfold yearOfDay
  dsimp only
  obtain ⟨era, hera⟩ : ∃ era, era = day / 146097 := ⟨_, rfl⟩
  obtain ⟨century, hcentury⟩ :
      ∃ century, century = min (day % 146097 / 36524) 3 := ⟨_, rfl⟩
  obtain ⟨cycle, hcycle⟩ :
      ∃ cycle, cycle = (day % 146097 - 36524 * century) / 1461 := ⟨_, rfl⟩
  obtain ⟨year, hyear⟩ : ∃ year,
      year = min ((day % 146097 - 36524 * century) % 1461 / 365) 3 := ⟨_, rfl⟩
  rw [← hera, ← hcentury, ← hcycle, ← hyear]
  have hc : 0 ≤ century ∧ century ≤ 3 := by omega
  have hq : 0 ≤ cycle ∧ cycle ≤ 24 := by omega
  have hy : 0 ≤ year ∧ year ≤ 3 := by omega
  have hfirst := daysBeforeYear_split era hc hq hy
  refine ⟨by omega, ?_⟩
  rw [daysBeforeYear_succ, hfirst]
  have hleap := leapDay_bounds
    (400 * era + 100 * century + 4 * cycle + year + 1)
  by_cases hlast : year = 3 ∧ (cycle < 24 ∨ century = 3)
  · have hone : leapDay (400 * era + 100 * century + 4 * cycle + year + 1) = 1 := by
      unfold leapDay
      rw [if_pos (by omega)]
    omega
  · omega

theorem yearOfDay_mono {first second : Int} (h : first ≤ second) :
    yearOfDay first ≤ yearOfDay second := by
  by_contra hlt
  have hfirst := (yearOfDay_spec first).1
  have hsecond := (yearOfDay_spec second).2
  have hyears := daysBeforeYear_mono (show yearOfDay second + 1 ≤ yearOfDay first by omega)
  omega

/-! ## The month of a day -/

def lastMonthUpTo (leap day : Int) : Nat → Nat
  | 0 => 0
  | month + 1 =>
      if daysBeforeMonth leap (month + 1) ≤ day then month + 1
      else lastMonthUpTo leap day month

def monthOfDay (leap day : Int) : Nat := lastMonthUpTo leap day 11

theorem lastMonthUpTo_spec (leap : Int) {day : Int} (hday : 0 ≤ day) (month : Nat) :
    lastMonthUpTo leap day month ≤ month ∧
      daysBeforeMonth leap (lastMonthUpTo leap day month) ≤ day ∧
      (lastMonthUpTo leap day month < month →
        day < daysBeforeMonth leap (lastMonthUpTo leap day month + 1)) := by
  induction month with
  | zero => simpa [lastMonthUpTo, daysBeforeMonth] using hday
  | succ month ih =>
      obtain ⟨hle, hstart, hnext⟩ := ih
      by_cases hday : daysBeforeMonth leap (month + 1) ≤ day
      · simp only [lastMonthUpTo, hday, if_true]
        exact ⟨le_rfl, trivial, fun h => absurd h (lt_irrefl _)⟩
      · simp only [lastMonthUpTo, hday, if_false]
        refine ⟨by omega, hstart, fun _ => ?_⟩
        by_cases hlast : lastMonthUpTo leap day month < month
        · exact hnext hlast
        · rw [show lastMonthUpTo leap day month = month by omega]
          omega

theorem daysInMonth_le {leap : Int} (hleap : leap ≤ 1) {month : Nat}
    (hmonth : month ≤ 11) : daysInMonth leap month ≤ 31 := by
  interval_cases month <;> simp [daysInMonth, daysBeforeMonth]
  omega

theorem monthOfDay_spec {leap day : Int} (hday : 0 ≤ day ∧ day < 365 + leap) :
    monthOfDay leap day ≤ 11 ∧
      daysBeforeMonth leap (monthOfDay leap day) ≤ day ∧
      day < daysBeforeMonth leap (monthOfDay leap day) +
        daysInMonth leap (monthOfDay leap day) := by
  obtain ⟨hle, hstart, hnext⟩ := lastMonthUpTo_spec leap hday.1 11
  refine ⟨hle, hstart, ?_⟩
  rcases hle.lt_or_eq with hlt | heq
  · have hlength := hnext hlt
    simp only [monthOfDay, daysInMonth, hlt.ne, if_false]
    omega
  · simp only [monthOfDay, heq, daysBeforeMonth, daysInMonth, if_true]
    omega

/-! ## Dates of day numbers -/

/-- Year, zero-based month and day of the month of a day number. -/
def civilOfDay (number : Int) : Int × Nat × Int :=
  let day := number + 719162
  let year := yearOfDay day
  let dayOfYear := day - daysBeforeYear year
  let month := monthOfDay (leapDay year) dayOfYear
  (year, month, dayOfYear - daysBeforeMonth (leapDay year) month + 1)

theorem dayNumber_civilOfDay (number : Int) :
    dayNumber (civilOfDay number).1 (civilOfDay number).2.1
      (civilOfDay number).2.2 = number := by
  simp only [civilOfDay, dayNumber]
  ring

theorem civilOfDay_bounds (number : Int) :
    (civilOfDay number).2.1 ≤ 11 ∧ 1 ≤ (civilOfDay number).2.2 ∧
      (civilOfDay number).2.2 ≤
        daysInMonth (leapDay (civilOfDay number).1) (civilOfDay number).2.1 := by
  obtain ⟨hlower, hupper⟩ := yearOfDay_spec (number + 719162)
  rw [daysBeforeYear_succ] at hupper
  have hday : 0 ≤ number + 719162 - daysBeforeYear (yearOfDay (number + 719162)) ∧
      number + 719162 - daysBeforeYear (yearOfDay (number + 719162)) <
        365 + leapDay (yearOfDay (number + 719162)) := by omega
  obtain ⟨hmonth, hstart, hlength⟩ := monthOfDay_spec hday
  refine ⟨hmonth, ?_⟩
  simp only [civilOfDay]
  omega

theorem civilOfDay_year {number : Int} (h : 0 ≤ number) :
    1970 ≤ (civilOfDay number).1 := by
  have hmono := yearOfDay_mono (show (719162 : Int) ≤ number + 719162 by omega)
  have hepoch : yearOfDay 719162 = 1970 := by decide
  simpa [civilOfDay, hepoch] using hmono

theorem civilOfDay_year_le {number : Int} (h : number ≤ 2932896) :
    (civilOfDay number).1 ≤ 9999 := by
  have hmono := yearOfDay_mono (show number + 719162 ≤ 3652058 by omega)
  have hlast : yearOfDay 3652058 = 9999 := by decide
  simpa [civilOfDay, hlast] using hmono

/-! ## The order of dates -/

theorem daysBeforeMonth_succ (leap : Int) {month : Nat} (h : month < 11) :
    daysBeforeMonth leap (month + 1) =
      daysBeforeMonth leap month + daysInMonth leap month := by
  rw [daysInMonth, if_neg h.ne]
  ring

theorem daysInMonth_pos {leap : Int} (hleap : 0 ≤ leap) {month : Nat}
    (hmonth : month ≤ 11) : 0 < daysInMonth leap month := by
  interval_cases month <;> simp [daysInMonth, daysBeforeMonth]
  omega

theorem daysBeforeMonth_of_lt {leap : Int} (hleap : 0 ≤ leap) {first second : Nat}
    (hlt : first < second) (hsecond : second ≤ 11) :
    daysBeforeMonth leap first + daysInMonth leap first ≤ daysBeforeMonth leap second := by
  induction second, hlt using Nat.le_induction with
  | base => rw [daysBeforeMonth_succ leap (by omega)]
  | succ month hle ih =>
      have hpos := daysInMonth_pos hleap (by omega : month ≤ 11)
      have hprevious := ih (by omega)
      rw [daysBeforeMonth_succ leap (by omega)]
      omega

/-- A zero-based month and a day that exist in a year with `leap` leap days. -/
structure ValidDay (leap : Int) (month : Nat) (day : Int) : Prop where
  month_le : month ≤ 11
  day_pos : 1 ≤ day
  day_le : day ≤ daysInMonth leap month

theorem ValidDay.dayOfYear {leap : Int} (hleap : 0 ≤ leap) {month : Nat} {day : Int}
    (h : ValidDay leap month day) :
    0 ≤ daysBeforeMonth leap month + (day - 1) ∧
      daysBeforeMonth leap month + (day - 1) < 365 + leap := by
  obtain ⟨hmonth, hpos, hle⟩ := h
  have hlast : daysBeforeMonth leap 11 = 334 + leap := rfl
  have hlength : daysInMonth leap 11 = 31 := rfl
  have hstart : 0 ≤ daysBeforeMonth leap month := by
    interval_cases month <;> simp [daysBeforeMonth] <;> omega
  refine ⟨by omega, ?_⟩
  rcases hmonth.lt_or_eq with hlt | rfl
  · have hbefore := daysBeforeMonth_of_lt hleap hlt le_rfl
    omega
  · omega

theorem dayNumber_lt_iff {year year' : Int} {month month' : Nat} {day day' : Int}
    (h : ValidDay (leapDay year) month day) (h' : ValidDay (leapDay year') month' day') :
    dayNumber year month day < dayNumber year' month' day' ↔
      year < year' ∨ year = year' ∧ (month < month' ∨ month = month' ∧ day < day') := by
  have hleap := (leapDay_bounds year).1
  have hleap' := (leapDay_bounds year').1
  have hday := h.dayOfYear hleap
  have hday' := h'.dayOfYear hleap'
  unfold dayNumber
  rcases lt_trichotomy year year' with hyear | rfl | hyear
  · have hnext := daysBeforeYear_mono (show year + 1 ≤ year' from hyear)
    rw [daysBeforeYear_succ] at hnext
    exact iff_of_true (by omega) (Or.inl hyear)
  · obtain ⟨hmonth, hpos, hle⟩ := h
    obtain ⟨hmonth', hpos', hle'⟩ := h'
    rcases lt_trichotomy month month' with hlt | rfl | hlt
    · have hbefore := daysBeforeMonth_of_lt hleap hlt hmonth'
      exact iff_of_true (by omega) (Or.inr ⟨rfl, Or.inl hlt⟩)
    · simp
    · have hbefore := daysBeforeMonth_of_lt hleap hlt hmonth
      exact iff_of_false (by omega) (by omega)
  · have hnext := daysBeforeYear_mono (show year' + 1 ≤ year from hyear)
    rw [daysBeforeYear_succ] at hnext
    exact iff_of_false (by omega) (by omega)

end RinhaBackend.Foundation.Calendar
