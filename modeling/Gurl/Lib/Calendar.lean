import Mathlib.Tactic.IntervalCases

/-! The Gregorian calendar, from 1970 on: the day of a date. -/

namespace Calendar

/-- A date and a time of day; months are counted from 0, days of a month from 1. -/
structure Tm where
  year : Nat
  mon : Nat
  mday : Nat
  hour : Nat
  min : Nat
  sec : Nat

/-- The days in front of a month, in a year that is no leap year. -/
def cumulativeDays (mon : Nat) : Nat :=
  [0, 31, 59, 90, 120, 151, 181, 212, 243, 273, 304, 334].getD mon 0

/-- The day of a date, counted from the first of January 1970. -/
def dayOfDate (year mon mday : Int) : Int :=
  let y := if mon ≤ 1 then year - 1 else year
  (year - 1970) * 365 + (y / 4 - y / 100 + y / 400 - 477) + cumulativeDays mon.toNat + mday - 1

/-! The Gregorian calendar of all years, by counting the days of its years and months. -/

def isLeap (year : Nat) : Bool := year % 4 = 0 && (year % 100 ≠ 0 || year % 400 = 0)

def yearDays (year : Nat) : Nat := if isLeap year then 366 else 365

/-- The days of a month, which are counted from 0. -/
def monthDays (year : Nat) : Nat → Nat
  | 0 | 2 | 4 | 6 | 7 | 9 | 11 => 31
  | 1 => if isLeap year then 29 else 28
  | 3 | 5 | 8 | 10 => 30
  | _ => 0

/-- The days from the start of the year 0 to the start of a year. -/
def daysBeforeYear : Nat → Nat
  | 0 => 0
  | year + 1 => daysBeforeYear year + yearDays year

/-- The days from the start of a year to the start of a month. -/
def daysBeforeMonth (year : Nat) : Nat → Nat
  | 0 => 0
  | mon + 1 => daysBeforeMonth year mon + monthDays year mon

/-- A date of the calendar, and a time of day. -/
structure Tm.Civil (tm : Tm) : Prop where
  mon : tm.mon ≤ 11
  mday : 1 ≤ tm.mday ∧ tm.mday ≤ monthDays tm.year tm.mon
  hour : tm.hour ≤ 23
  min : tm.min ≤ 59
  sec : tm.sec ≤ 59

/-- The number of a day; the first of January of the year 0 has the number 1. -/
def dayNumber (tm : Tm) : Nat := daysBeforeYear tm.year + daysBeforeMonth tm.year tm.mon + tm.mday

def secondOfDay (tm : Tm) : Nat := (tm.hour * 60 + tm.min) * 60 + tm.sec

/-- The first of January 1970. -/
def epoch : Tm := ⟨1970, 0, 1, 0, 0, 0⟩

/-- The seconds since 1970, less than 0 before. -/
def secondsSince1970 (tm : Tm) : Int :=
  ((dayNumber tm : Int) - dayNumber epoch) * 86400 + secondOfDay tm

/-- The numbers of a date and a time of day, the most significant first. -/
def Tm.numbers (tm : Tm) : List Nat := [tm.year, tm.mon, tm.mday, tm.hour, tm.min, tm.sec]

/-! ### Closed forms -/

theorem daysBeforeYear_eq (year : Nat) :
    daysBeforeYear year + (year + 99) / 100 = 365 * year + (year + 3) / 4 + (year + 399) / 400 := by
  induction year with
  | zero => rfl
  | succ year ih =>
    rw [daysBeforeYear, yearDays]
    by_cases hleap : isLeap year = true
    · rw [if_pos hleap]
      simp only [isLeap, Bool.and_eq_true, Bool.or_eq_true, decide_eq_true_eq] at hleap
      omega
    · rw [if_neg hleap]
      simp only [isLeap, Bool.and_eq_true, Bool.or_eq_true, decide_eq_true_eq] at hleap
      omega

theorem daysBeforeMonth_eq (year : Nat) {mon : Nat} (h : mon ≤ 11) :
    daysBeforeMonth year mon =
      cumulativeDays mon + if 2 ≤ mon ∧ isLeap year = true then 1 else 0 := by
  cases hleap : isLeap year <;> interval_cases mon <;>
    simp [daysBeforeMonth, monthDays, cumulativeDays, hleap]

theorem daysBeforeMonth_twelve (year : Nat) : daysBeforeMonth year 12 = yearDays year := by
  rw [yearDays]
  cases hleap : isLeap year <;> simp [daysBeforeMonth, monthDays, hleap]

/-- The day number and the formula for the days since 1970 count the same days. -/
theorem dayOfDate_eq {tm : Tm} (hmon : tm.mon ≤ 11) :
    dayOfDate tm.year tm.mon tm.mday = (dayNumber tm : Int) - dayNumber epoch := by
  have hyears := daysBeforeYear_eq tm.year
  have hepoch : dayNumber epoch = 719529 := by
    have := daysBeforeYear_eq 1970
    simp only [dayNumber, epoch, daysBeforeMonth]
    omega
  rw [hepoch, dayNumber, daysBeforeMonth_eq tm.year hmon, dayOfDate, Int.toNat_natCast]
  by_cases hearly : tm.mon ≤ 1
  · rw [if_pos (by omega), if_neg (by omega)]
    push_cast
    omega
  · rw [if_neg (by omega)]
    by_cases hleap : isLeap tm.year = true
    · rw [if_pos ⟨by omega, hleap⟩]
      simp only [isLeap, Bool.and_eq_true, Bool.or_eq_true, decide_eq_true_eq] at hleap
      push_cast
      omega
    · rw [if_neg (by simp [hleap])]
      simp only [isLeap, Bool.and_eq_true, Bool.or_eq_true, decide_eq_true_eq] at hleap
      push_cast
      omega

/-! ### Later dates -/

theorem daysBeforeYear_mono : Monotone daysBeforeYear :=
  monotone_nat_of_le_succ fun _ => Nat.le_add_right _ _

theorem daysBeforeMonth_mono (year : Nat) : Monotone (daysBeforeMonth year) :=
  monotone_nat_of_le_succ fun _ => Nat.le_add_right _ _

/-- A day of a month is in front of the next month. -/
theorem Tm.Civil.before_next_month {tm : Tm} (h : tm.Civil) :
    daysBeforeMonth tm.year tm.mon + tm.mday ≤ daysBeforeMonth tm.year (tm.mon + 1) :=
  Nat.add_le_add_left h.mday.2 _

/-- A day of a year is in front of the next year. -/
theorem Tm.Civil.before_next_year {tm : Tm} (h : tm.Civil) :
    dayNumber tm ≤ daysBeforeYear (tm.year + 1) := by
  have hmonth := h.before_next_month
  have htwelve := daysBeforeMonth_mono tm.year (show tm.mon + 1 ≤ 12 by have := h.mon; omega)
  rw [daysBeforeMonth_twelve] at htwelve
  rw [dayNumber, daysBeforeYear]
  omega

/-- A day, or else a second of the same day, comes later. -/
theorem later_cases {a b : Tm} (ha : a.Civil) (hb : b.Civil) (h : a.numbers < b.numbers) :
    dayNumber a < dayNumber b ∨ dayNumber a = dayNumber b ∧ secondOfDay a < secondOfDay b := by
  have hmday := hb.mday.1
  simp only [Tm.numbers, List.cons_lt_cons_iff, List.not_lt_nil, and_false, or_false] at h
  obtain hyear | ⟨hyear, hmon | ⟨hmon, hday | ⟨hday, htime⟩⟩⟩ := h
  · have hnext := ha.before_next_year
    have hle := daysBeforeYear_mono (show a.year + 1 ≤ b.year from hyear)
    refine .inl ?_
    rw [dayNumber] at hnext ⊢
    rw [dayNumber]
    omega
  · have hnext := ha.before_next_month
    have hle := daysBeforeMonth_mono a.year (show a.mon + 1 ≤ b.mon from hmon)
    refine .inl ?_
    rw [dayNumber, dayNumber, ← hyear]
    omega
  · refine .inl ?_
    rw [dayNumber, dayNumber, ← hyear, ← hmon]
    omega
  · refine .inr ⟨by rw [dayNumber, dayNumber, hyear, hmon, hday], ?_⟩
    have := ha.min
    have := hb.min
    have := ha.sec
    have := hb.sec
    rw [secondOfDay, secondOfDay]
    omega

theorem Tm.Civil.secondOfDay_lt {tm : Tm} (h : tm.Civil) : secondOfDay tm < 86400 := by
  have := h.hour
  have := h.min
  have := h.sec
  rw [secondOfDay]
  omega

/-- The seconds since 1970 grow with the date and the time of day. -/
theorem secondsSince1970_lt {a b : Tm} (ha : a.Civil) (hb : b.Civil) (h : a.numbers < b.numbers) :
    secondsSince1970 a < secondsSince1970 b := by
  have hlt := ha.secondOfDay_lt
  rw [secondsSince1970, secondsSince1970]
  obtain hday | ⟨hday, hsec⟩ := later_cases ha hb h
  · omega
  · omega

end Calendar
