import Almanac.Ascending
import Almanac.Calendar.WeekNumber
import Almanac.Rule.Basic

/-!
# What the BY parts do to a civil time

Every BY part is a stage: it gives the civil times that stand for one. This file fixes

* **a stage either expands or limits.** An expanding stage replaces its input by all the civil
  times that the part lists within one increment of the rule, a limiting stage keeps its input or
  drops it. Which of the two a part does depends on the frequency and on which other parts are
  present;
* the time of day stays what it was until the stages for hour, minute and second, which have no say
  over dates;
* a rule that leaves the day open repeats on the day of the month, or on the weekday, of its seed
  (`monthDaysFor`, `daysFor`);
* the stages follow one another from month to second, each over the ascending results of the one
  before, and the positions pick from the last results (`civilCandidates`).
-/

namespace Almanac

/-! ## 1. Places in a list -/

/-- The value at a place: counted from the front, from one, when the place is above zero, and from
the back when it is below. -/
def pick? {α : Type} (values : List α) (place : Int) : Option α :=
  if 0 < place then values[place.toNat - 1]?
  else if place.natAbs ≤ values.length then values[values.length - place.natAbs]?
  else none

/-- Whether one of the places is that of a value which is the `value`-th of `length`. -/
def placed (places : List Int) (value length : Nat) : Bool :=
  places.any fun place => place = value || place = value - length - 1

/-- The dates of a weekday from `first` to `last`: all, or the one that the ordinal means. -/
def DayEntry.datesIn (e : DayEntry) (first last : Date) : List Date :=
  let all := match first.addDays? (e.day.after first.weekday) with
    | none => []
    | some start => Date.spaced 7 start last
  if e.ordinal = 0 then all else (pick? all e.ordinal).toList

namespace Rule

/-! ## 2. What a rule leaves open -/

/-- The days of the month: a monthly rule without weekdays, and a yearly rule in which nothing else
    fixes the day, repeat on that of the seed. -/
def monthDaysFor (r : Rule) (root : Civil) : List Int :=
  let p := r.parts
  let leftOpen := p.monthDays.isEmpty && p.days.isEmpty && match r.frequency with
    | .monthly => true
    | .yearly => p.yearDays.isEmpty && p.weekNumbers.isEmpty
    | _ => false
  if leftOpen then [(root.date.dayOfMonth : Int)] else p.monthDays

/-- The weekdays: a weekly rule, and a yearly rule that fixes only the week, repeat on that of the
    seed. -/
def daysFor (r : Rule) (root : Civil) : List DayEntry :=
  let p := r.parts
  let leftOpen := p.days.isEmpty && match r.frequency with
    | .weekly => true
    | .yearly => !p.weekNumbers.isEmpty && p.yearDays.isEmpty && p.monthDays.isEmpty
    | _ => false
  if leftOpen then [DayEntry.every root.date.weekday] else p.days

/-! ## 3. Dates -/

/-- A limiting stage. -/
def keepIf (test : Civil → Bool) (c : Civil) : List Civil :=
  if test c then [c] else []

/-- BYMONTH: a yearly rule takes every listed month, in which a day that is too late becomes the
last one. -/
def byMonth (r : Rule) (c : Civil) : List Civil :=
  let months := r.parts.months
  let year := c.date.year
  if r.frequency = .yearly then
    months.filterMap fun month =>
      (Date.ofFields? year month (min c.date.dayOfMonth (daysInMonth year month))).map c.onDate
  else keepIf (fun c => months.contains c.date.month) c

/-- Whether a date lies in a listed week. -/
def inListedWeek (r : Rule) (date : Date) : Bool :=
  let listed := do
    let (year, week) ← WeekNumber.weekOf? date r.weekStart
    let weeks ← WeekNumber.weeksInYear? year r.weekStart
    return placed r.parts.weekNumbers week weeks
  listed.getD false

/-- BYWEEKNO: a yearly rule takes every day of the listed weeks, within the calendar year and, if
    months are listed, within the month. -/
def byWeekNumber (r : Rule) (c : Civil) : List Civil :=
  if r.frequency = .yearly then
    match c.date.yearBounds? with
    | none => []
    | some (first, last) =>
      ((Date.spaced 1 first last).filter fun day =>
        (r.parts.months.isEmpty || day.month = c.date.month) && r.inListedWeek day).map c.onDate
  else keepIf (fun c => r.inListedWeek c.date) c

/-- BYYEARDAY: a yearly rule takes every listed day of the year, unless weeks have fixed the day,
and within the month if months are listed. -/
def byYearDay (r : Rule) (c : Civil) : List Civil :=
  let places := r.parts.yearDays
  let year := c.date.year
  if r.frequency = .yearly && r.parts.weekNumbers.isEmpty then
    places.filterMap fun place =>
      let ordinal : Int := if 0 < place then place else daysInYear year + place + 1
      ((Date.ofOrdinal? year ordinal.toNat).filter fun day =>
        r.parts.months.isEmpty || day.month = c.date.month).map c.onDate
  else keepIf (fun c => placed places c.date.ordinal (daysInYear c.date.year)) c

/-- The date of a place in a month, or what the skip policy puts there. -/
def monthDay? (policy : Skip) (year : Int) (month : Nat) (place : Int) : Option Date :=
  let length := daysInMonth year month
  let day : Int := if 0 < place then place else length + place + 1
  if 1 ≤ day ∧ day ≤ length then Date.ofFields? year month day.toNat
  else
    (Date.ofFields? year month 1).bind fun first =>
      match policy with
      | .leaveOut => none
      | .forward => if length < day then first.addMonths? 1 else some first
      | .backward =>
        if length < day then Date.ofFields? year month length else first.addDays? (-1)

/-- BYMONTHDAY: a monthly or yearly rule takes every listed day of the month, unless weeks or days
of the year have fixed the day; a yearly rule that lists days but no months takes them in every
month. -/
def byMonthDay (r : Rule) (places : List Int) (c : Civil) : List Civil :=
  let p := r.parts
  let expands := (r.frequency = .monthly || r.frequency = .yearly) && p.weekNumbers.isEmpty &&
    p.yearDays.isEmpty
  let wholeYear := r.frequency = .yearly && p.months.isEmpty && !p.monthDays.isEmpty
  if expands then
    (if wholeYear then List.range' 1 12 else [c.date.month]).flatMap fun month =>
      (places.filterMap (monthDay? r.skip c.date.year month)).map c.onDate
  else
    keepIf (fun c => placed places c.date.dayOfMonth (daysInMonth c.date.year c.date.month)) c

/-- How BYDAY acts. -/
inductive DayScope where
  /-- It keeps the listed weekdays and pays no heed to ordinals. -/
  | anyWhere
  /-- It takes every listed weekday of the week. -/
  | week
  /-- It takes, or keeps, the listed weekdays of the month. -/
  | month (expands : Bool)
  /-- It takes, or keeps, the listed weekdays of the year. -/
  | year (expands : Bool)
deriving DecidableEq, Repr

/-- How BYDAY acts in a rule. -/
def dayScope (r : Rule) : DayScope :=
  let p := r.parts
  match r.frequency with
  | .weekly => .week
  | .monthly => .month p.monthDays.isEmpty
  | .yearly =>
    if !p.yearDays.isEmpty || !p.monthDays.isEmpty then
      if p.months.isEmpty then .year false else .month false
    else if !p.weekNumbers.isEmpty then .anyWhere
    else if p.months.isEmpty then .year true
    else .month true
  | _ => .anyWhere

/-- The listed weekdays between two dates: all that are there, or the civil time itself if it
falls on one. -/
def daysWithin (expands : Bool) (entries : List DayEntry) (bounds : Option (Date × Date))
    (c : Civil) : List Civil :=
  match bounds with
  | none => []
  | some (first, last) =>
    if expands then (entries.flatMap fun e => e.datesIn first last).map c.onDate
    else
      keepIf (fun c => (entries.filter (·.day = c.date.weekday)).any fun e =>
        (e.datesIn first last).contains c.date) c

/-- BYDAY. -/
def byDay (r : Rule) (entries : List DayEntry) (c : Civil) : List Civil :=
  match r.dayScope with
  | .anyWhere => keepIf (fun c => entries.any (·.day = c.date.weekday)) c
  | .week =>
    match c.date.addDays? (-(c.date.weekday.after r.weekStart : Int)) with
    | none => []
    | some start =>
      ((entries.filterMap fun e => start.addDays? (e.day.after r.weekStart)).filter fun day =>
        r.parts.months.isEmpty || r.parts.months.contains day.month).map c.onDate
  | .month expands => daysWithin expands entries c.date.monthBounds? c
  | .year expands => daysWithin expands entries c.date.yearBounds? c

/-! ## 4. Times of day -/

/-- A stage for a field of the clock. -/
def byClock (expands : Bool) (get : Civil → Nat) (set? : Civil → Nat → Option Civil)
    (values : List Nat) (c : Civil) : List Civil :=
  if expands then values.filterMap (set? c) else keepIf (fun c => values.contains (get c)) c

/-- BYHOUR: a rule of days or longer takes every listed hour. -/
def byHour (r : Rule) : Civil → List Civil :=
  byClock (Frequency.daily.rank ≤ r.frequency.rank) Civil.hour Civil.withHour? r.parts.hours

/-- BYMINUTE: a rule of hours or longer takes every listed minute. -/
def byMinute (r : Rule) : Civil → List Civil :=
  byClock (Frequency.hourly.rank ≤ r.frequency.rank) Civil.minute Civil.withMinute? r.parts.minutes

/-- BYSECOND: a rule of minutes or longer takes every listed second. -/
def bySecond (r : Rule) : Civil → List Civil :=
  byClock (Frequency.minutely.rank ≤ r.frequency.rank) Civil.second Civil.withSecond?
    r.parts.seconds

/-! ## 5. All stages -/

/-- A stage of a part, unless the part is empty. -/
def stageOf {α : Type} (values : List α) (stage : Civil → List Civil) :
    List (Civil → List Civil) :=
  if values.isEmpty then [] else [stage]

/-- The stages of a rule that starts at a seed; a seed without a time of day leaves the clock
alone. -/
def stages (r : Rule) (root : Civil) (dateOnly : Bool) : List (Civil → List Civil) :=
  let p := r.parts
  stageOf p.months r.byMonth ++ stageOf p.weekNumbers r.byWeekNumber ++
    stageOf p.yearDays r.byYearDay ++
    stageOf (r.monthDaysFor root) (r.byMonthDay (r.monthDaysFor root)) ++
    stageOf (r.daysFor root) (r.byDay (r.daysFor root)) ++
    if dateOnly then []
    else stageOf p.hours r.byHour ++ stageOf p.minutes r.byMinute ++ stageOf p.seconds r.bySecond

/-- The results of a stage over several civil times, in ascending order. -/
def runStage (times : List Civil) (stage : Civil → List Civil) : List Civil :=
  ascending Civil.rank (times.flatMap stage)

/-- BYSETPOS: the civil times at the listed places. -/
def byPosition (r : Rule) (times : List Civil) : List Civil :=
  if r.parts.positions.isEmpty then times
  else ascending Civil.rank (r.parts.positions.filterMap (pick? times))

/-- The civil times of the increment that begins at `period`, in ascending order. -/
def civilCandidates (r : Rule) (root period : Civil) (dateOnly : Bool) : List Civil :=
  r.byPosition ((r.stages root dateOnly).foldl runStage [period])

end Rule

end Almanac
