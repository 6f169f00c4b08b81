import Almanac.Calendar.Weekday

/-!
# Calendar dates

Dates of the Gregorian calendar, carried backwards through year 0 and before it. This file fixes

* **a date is its day number** (`Date.day`), counted from 1 January of year 0, so that order,
  distance and steps of days are integer arithmetic;
* the calendar covers the years `firstYear` to `lastYear`, and the bounds are part of the type:
  every operation that could leave them answers with an `Option`;
* the fields of a date (`year`, `ordinal`, `month`, `dayOfMonth`, `weekday`) are read off the day
  number. `yearStart` is the one closed formula; the year is found by an estimate that is at
  most one off.

Months are numbered 1 to 12, days of the month and of the year from 1.
-/

namespace Almanac

/-! ## 1. Years and months -/

/-- A year of 366 days: every fourth, without the centuries that 400 does not divide. -/
def isLeapYear (year : Int) : Bool :=
  year % 4 == 0 && (year % 100 != 0 || year % 400 == 0)

/-- Days in a year. -/
def daysInYear (year : Int) : Nat :=
  if isLeapYear year then 366 else 365

/-- The day number of 1 January: 365 days a year, and a day for each leap year in between. -/
def yearStart (year : Int) : Int :=
  365 * year + (year + 3) / 4 - (year + 99) / 100 + (year + 399) / 400

/-- The lengths of the twelve months. -/
def monthLengths (leap : Bool) : List Nat :=
  [31, if leap then 29 else 28, 31, 30, 31, 30, 31, 31, 30, 31, 30, 31]

/-- Days in a month of a year; a number that names no month has no days. -/
def daysInMonth (year : Int) (month : Nat) : Nat :=
  if month = 0 then 0 else (monthLengths (isLeapYear year))[month - 1]?.getD 0

/-- Days of the year that lie before a month. -/
def daysBeforeMonth (year : Int) (month : Nat) : Nat :=
  ((monthLengths (isLeapYear year)).take (month - 1)).foldl (· + ·) 0

/-- The month and the day of the month that an offset into a run of months falls on. -/
def monthAndDay : (lengths : List Nat) → (month offset : Nat) → Nat × Nat
  | [], month, offset => (month, offset + 1)
  | length :: lengths, month, offset =>
    if offset < length then (month, offset + 1)
    else monthAndDay lengths (month + 1) (offset - length)

/-- The first year of the calendar. -/
def firstYear : Int := -262143

/-- The last year of the calendar. -/
def lastYear : Int := 262142

/-- The day number of the first day of the first year. -/
abbrev firstDay : Int := -95745764

/-- The day number of the last day of the last year. -/
abbrev lastDay : Int := 95745764

theorem yearStart_firstYear : yearStart firstYear = firstDay := by decide

theorem yearStart_lastYear_succ : yearStart (lastYear + 1) = lastDay + 1 := by decide

/-- Consecutive years begin a year's days apart. -/
theorem yearStart_succ (year : Int) : yearStart (year + 1) = yearStart year + daysInYear year := by
  by_cases leap : isLeapYear year = true
  · have h := leap
    simp only [isLeapYear, Bool.and_eq_true, Bool.or_eq_true, beq_iff_eq, bne_iff_ne, ne_eq] at h
    simp only [yearStart, daysInYear, leap, if_true]
    omega
  · have h := leap
    simp only [isLeapYear, Bool.and_eq_true, Bool.or_eq_true, beq_iff_eq, bne_iff_ne, ne_eq,
      not_and, not_or, Decidable.not_not] at h
    simp only [yearStart, daysInYear, if_neg leap]
    omega

/-! ## 2. Dates -/

/-- A date, as the number of days since 1 January of year 0. -/
structure Date where
  day : Int
  first_le : firstDay ≤ day
  le_last : day ≤ lastDay
deriving DecidableEq

namespace Date

@[ext] theorem ext {a b : Date} (h : a.day = b.day) : a = b := by
  cases a; cases b; cases h; rfl

instance : Inhabited Date := ⟨0, by decide, by decide⟩

/-- The date with a day number, if the calendar reaches that far. -/
def ofDay? (day : Int) : Option Date :=
  if h : firstDay ≤ day ∧ day ≤ lastDay then some ⟨day, h.1, h.2⟩ else none

/-- The date nearest to a day number: the ends of the calendar stand for what lies past them. -/
def nearest (day : Int) : Date :=
  if low : day < firstDay then ⟨firstDay, by decide, by decide⟩
  else if high : lastDay < day then ⟨lastDay, by decide, by decide⟩
  else ⟨day, by omega, by omega⟩

/-- The date so many days later, or earlier for a negative number. -/
def addDays? (date : Date) (days : Int) : Option Date :=
  ofDay? (date.day + days)

/-- The year a day number falls in, or the one before or after it. -/
def yearEstimate (day : Int) : Int :=
  400 * day / 146097

/-- The year of a date. -/
def year (date : Date) : Int :=
  let guess := yearEstimate date.day
  if date.day < yearStart guess then guess - 1
  else if yearStart (guess + 1) ≤ date.day then guess + 1
  else guess

/-- Days since the first day of the year. -/
def dayOffset (date : Date) : Nat :=
  (date.day - yearStart date.year).toNat

/-- The day of the year, from 1. -/
def ordinal (date : Date) : Nat :=
  date.dayOffset + 1

/-- Month and day of the month. -/
def fields (date : Date) : Nat × Nat :=
  monthAndDay (monthLengths (isLeapYear date.year)) 1 date.dayOffset

/-- The month, 1 to 12. -/
def month (date : Date) : Nat := date.fields.1

/-- The day of the month, from 1. -/
def dayOfMonth (date : Date) : Nat := date.fields.2

/-- The day of the week: day 0 is a Saturday. -/
def weekday (date : Date) : Weekday :=
  Weekday.ofIndex ((date.day + 5) % 7).toNat

/-- The date with a year, month and day of the month, if there is one. -/
def ofFields? (year : Int) (month dayOfMonth : Nat) : Option Date :=
  if 1 ≤ month ∧ month ≤ 12 ∧ 1 ≤ dayOfMonth ∧ dayOfMonth ≤ daysInMonth year month then
    ofDay? (yearStart year + (daysBeforeMonth year month + (dayOfMonth - 1) : Nat))
  else none

/-- The date with a year and a day of that year, if there is one. -/
def ofOrdinal? (year : Int) (ordinal : Nat) : Option Date :=
  if 1 ≤ ordinal ∧ ordinal ≤ daysInYear year then
    ofDay? (yearStart year + (ordinal - 1 : Nat))
  else none

/-- Months since January of year 0. -/
def monthIndex (date : Date) : Int :=
  12 * date.year + (date.month - 1 : Nat)

/-- The same day so many months on. A month that is too short gives its last day. -/
def addMonths? (date : Date) (months : Int) : Option Date :=
  let target := date.monthIndex + months
  let year := target / 12
  let month := (target % 12).toNat + 1
  ofFields? year month (min date.dayOfMonth (daysInMonth year month))

/-! ## 3. Spans of dates -/

/-- Every `step`-th date from `first` up to `last`. A date is listed only while the calendar still
    holds the date one step later. -/
def spaced (step : Nat) (first last : Date) : List Date :=
  (List.range ((last.day - first.day) / step + 1).toNat).filterMap fun i =>
    (first.addDays? (step * (i + 1) : Nat)).bind fun _ => first.addDays? (step * i : Nat)

/-- The first and the last date of the month. -/
def monthBounds? (date : Date) : Option (Date × Date) := do
  let first ← ofFields? date.year date.month 1
  let last ← ofFields? date.year date.month (daysInMonth date.year date.month)
  return (first, last)

/-- The first and the last date of the year. -/
def yearBounds? (date : Date) : Option (Date × Date) := do
  let first ← ofFields? date.year 1 1
  let last ← ofFields? date.year 12 31
  return (first, last)

/-! ## 4. Laws -/

@[simp] theorem ofDay?_day (date : Date) : ofDay? date.day = some date := by
  simp [ofDay?, date.first_le, date.le_last]

theorem ofDay?_eq_some_iff {day : Int} {date : Date} :
    ofDay? day = some date ↔ date.day = day := by
  constructor
  · intro h
    simp only [ofDay?] at h
    split at h
    · simp only [Option.some.injEq] at h; subst h; rfl
    · simp at h
  · rintro rfl; simp

theorem yearStart_yearEstimate_sub_one_le (day : Int) :
    yearStart (yearEstimate day - 1) ≤ day := by
  unfold yearStart yearEstimate; omega

theorem lt_yearStart_yearEstimate_add_two (day : Int) :
    day < yearStart (yearEstimate day + 1 + 1) := by
  unfold yearStart yearEstimate; omega

/-- **The year of a date is the year whose days its number lies among.** -/
theorem year_bounds (date : Date) :
    yearStart date.year ≤ date.day ∧ date.day < yearStart (date.year + 1) := by
  have low := yearStart_yearEstimate_sub_one_le date.day
  have high := lt_yearStart_yearEstimate_add_two date.day
  unfold year
  dsimp only
  split
  · rename_i h
    rw [Int.sub_add_cancel]
    exact ⟨low, h⟩
  · split
    · rename_i h
      exact ⟨h, high⟩
    · omega

end Date

end Almanac
