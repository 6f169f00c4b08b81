import Almanac.Calendar.Date

/-!
# Week numbers

Weeks may begin on any day of the week. Week 1 of a year is the first week with at least four of
its days in that year, so a week belongs to the year that holds its fourth day, and a year has 52
or 53 weeks. Every function here takes the first day of the week as its last argument, and answers
`none` only where a neighbouring year lies outside the calendar.
-/

namespace Almanac.WeekNumber

/-- The first day of week 1 of a year. -/
def firstWeekStart? (year : Int) (weekStart : Weekday) : Option Date := do
  let newYear ← Date.ofFields? year 1 1
  let offset := newYear.weekday.after weekStart
  if offset ≤ 3 then newYear.addDays? (-(offset : Int)) else newYear.addDays? (7 - offset : Nat)

/-- The number of weeks in a year. -/
def weeksInYear? (year : Int) (weekStart : Weekday) : Option Nat := do
  let start ← firstWeekStart? year weekStart
  let next ← firstWeekStart? (year + 1) weekStart
  return ((next.day - start.day) / 7).toNat

/-- The week-numbering year of a date and its week in that year. -/
def weekOf? (date : Date) (weekStart : Weekday) : Option (Int × Nat) := do
  let year := date.year
  let start ← firstWeekStart? year weekStart
  if date.day < start.day then
    let previous ← firstWeekStart? (year - 1) weekStart
    return (year - 1, ((date.day - previous.day) / 7).toNat + 1)
  let next ← firstWeekStart? (year + 1) weekStart
  if next.day ≤ date.day then
    return (year + 1, 1)
  return (year, ((date.day - start.day) / 7).toNat + 1)

end Almanac.WeekNumber
