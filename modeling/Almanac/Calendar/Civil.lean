import Almanac.Calendar.Date

/-!
# Civil time

A civil time is a date and a time of day, to the second, as a clock and a calendar on the wall show
it; it names no zone. This file fixes

* **a civil time is one number of seconds** (`Civil.stamp`) since the start of 1 January of year 0,
  86400 to the day, so that elapsed time is addition;
* a leap second is the second 59 it follows with the mark `Civil.leap`: it comes after that second
  and before the next, and shows `60`;
* stepping by a nonzero amount of time leaves the leap second (`addSeconds?`); changing a field of
  the clock or the calendar keeps the mark;
* an instant is written as the civil time it has in UTC, so the same type serves for both.
-/

namespace Almanac

/-- The first second of the calendar. -/
abbrev firstStamp : Int := -8272434009600

/-- The last second of the calendar. -/
abbrev lastStamp : Int := 8272434095999

/-- A civil time, as the seconds since the start of year 0. -/
structure Civil where
  stamp : Int
  leap : Bool
  first_le : firstStamp ≤ stamp
  le_last : stamp ≤ lastStamp
deriving DecidableEq

namespace Civil

@[ext] theorem ext {a b : Civil} (stamp : a.stamp = b.stamp) (leap : a.leap = b.leap) : a = b := by
  cases a; cases b; cases stamp; cases leap; rfl

instance : Inhabited Civil := ⟨0, false, by decide, by decide⟩

/-! ## 1. Making civil times -/

/-- The civil time with a stamp, if the calendar reaches that far. -/
def ofStamp? (stamp : Int) (leap : Bool) : Option Civil :=
  if h : firstStamp ≤ stamp ∧ stamp ≤ lastStamp then some ⟨stamp, leap, h.1, h.2⟩ else none

/-- The civil time nearest to a stamp: the ends of the calendar stand for what lies past them. -/
def nearest (stamp : Int) (leap : Bool) : Civil :=
  if low : stamp < firstStamp then ⟨firstStamp, leap, by decide, by decide⟩
  else if high : lastStamp < stamp then ⟨lastStamp, leap, by decide, by decide⟩
  else ⟨stamp, leap, by omega, by omega⟩

/-- A date at a second of the day. -/
def ofDate (date : Date) (second : Fin 86400) (leap : Bool) : Civil where
  stamp := date.day * 86400 + second.val
  leap := leap
  first_le := by have := date.first_le; simp only [firstDay, firstStamp] at *; omega
  le_last := by have := date.le_last; simp only [lastDay, lastStamp] at *; omega

/-- A date at a clock time. -/
def atClock (date : Date) (hour minute second : Nat) (leap : Bool) : Civil :=
  ofDate date (Fin.ofNat 86400 (hour * 3600 + minute * 60 + second)) leap

/-- The midnight a date begins with. -/
def midnight (date : Date) : Civil :=
  ofDate date 0 false

/-! ## 2. Fields -/

/-- The date. -/
def date (c : Civil) : Date where
  day := c.stamp / 86400
  first_le := by have := c.first_le; simp only [firstDay, firstStamp] at *; omega
  le_last := by have := c.le_last; simp only [lastDay, lastStamp] at *; omega

/-- The second of the day. -/
def secondOfDay (c : Civil) : Fin 86400 :=
  ⟨(c.stamp % 86400).toNat, by omega⟩

/-- The hour, 0 to 23. -/
def hour (c : Civil) : Nat := c.secondOfDay.val / 3600

/-- The minute, 0 to 59. -/
def minute (c : Civil) : Nat := c.secondOfDay.val / 60 % 60

/-- The second, 0 to 59; a leap second counts as the 59 it follows. -/
def second (c : Civil) : Nat := c.secondOfDay.val % 60

/-- The same time of day on another date. -/
def onDate (c : Civil) (date : Date) : Civil :=
  ofDate date c.secondOfDay c.leap

/-- The civil time with its second of the day replaced, if the day has that second. -/
def withSecondOfDay? (c : Civil) (second : Nat) : Option Civil :=
  if h : second < 86400 then some (ofDate c.date ⟨second, h⟩ c.leap) else none

/-- The civil time at another hour. -/
def withHour? (c : Civil) (hour : Nat) : Option Civil :=
  if hour < 24 then c.withSecondOfDay? (hour * 3600 + c.secondOfDay.val % 3600) else none

/-- The civil time at another minute. -/
def withMinute? (c : Civil) (minute : Nat) : Option Civil :=
  if minute < 60 then
    c.withSecondOfDay? (c.hour * 3600 + minute * 60 + c.second)
  else none

/-- The civil time at another second; no minute has a sixtieth second here. -/
def withSecond? (c : Civil) (second : Nat) : Option Civil :=
  if second < 60 then
    c.withSecondOfDay? (c.secondOfDay.val / 60 * 60 + second)
  else none

/-! ## 3. Order -/

/-- The place of a civil time in time order: a leap second comes right after its second 59. -/
def rank (c : Civil) : Int :=
  2 * c.stamp + if c.leap then 1 else 0

/-- Time order. -/
instance : Ord Civil := ⟨fun a b => compare a.rank b.rank⟩

instance : LT Civil := ⟨fun a b => a.rank < b.rank⟩

instance : LE Civil := ⟨fun a b => a.rank ≤ b.rank⟩

instance (a b : Civil) : Decidable (a < b) := inferInstanceAs (Decidable (a.rank < b.rank))

instance (a b : Civil) : Decidable (a ≤ b) := inferInstanceAs (Decidable (a.rank ≤ b.rank))

/-! ## 4. Elapsed time -/

/-- The stamp so many seconds later: a leap second is left towards the second that follows it. -/
def stampAfter (c : Civil) (seconds : Int) : Int :=
  c.stamp + seconds + if c.leap ∧ seconds < 0 then 1 else 0

/-- The time so many seconds later, or earlier for a negative number. -/
def addSeconds? (c : Civil) (seconds : Int) : Option Civil :=
  if seconds = 0 then some c else ofStamp? (c.stampAfter seconds) false

/-- As `addSeconds?`, but the ends of the calendar stand for what lies past them. -/
def addSecondsWithin (c : Civil) (seconds : Int) : Civil :=
  if seconds = 0 then c else nearest (c.stampAfter seconds) false

/-- The time so many whole days later. -/
def addDays? (c : Civil) (days : Int) : Option Civil :=
  c.addSeconds? (days * 86400)

/-- Seconds from `b` to `a`. A leap second at either end counts when the time of day of that end is
    not the earlier one. -/
def secondsSince (a b : Civil) : Int :=
  a.stamp - b.stamp + (if a.leap ∧ b.secondOfDay ≤ a.secondOfDay then 1 else 0)
    - (if b.leap ∧ a.secondOfDay ≤ b.secondOfDay then 1 else 0)

/-- The same wall-clock day of the month and time of day so many months on. -/
def addMonths? (c : Civil) (months : Int) : Option Civil :=
  (c.date.addMonths? months).map c.onDate

/-! ## 5. Offsets -/

/-- The reading of a clock that is ahead by `offset` seconds; the leap mark stays. -/
def shift? (c : Civil) (offset : Int) : Option Civil :=
  ofStamp? (c.stamp + offset) c.leap

/-- As `shift?`, but the ends of the calendar stand for what lies past them. -/
def shift (c : Civil) (offset : Int) : Civil :=
  nearest (c.stamp + offset) c.leap

/-! ## 6. Laws -/

theorem rank_injective {a b : Civil} (h : a.rank = b.rank) : a = b := by
  unfold rank at h
  split at h <;> split at h
  · exact ext (by omega) (by simp [*])
  · omega
  · omega
  · exact ext (by omega) (by simp_all)

@[simp] theorem ofStamp?_stamp (c : Civil) : ofStamp? c.stamp c.leap = some c := by
  simp [ofStamp?, c.first_le, c.le_last]

@[simp] theorem date_ofDate (date : Date) (second : Fin 86400) (leap : Bool) :
    (ofDate date second leap).date = date := by
  apply Date.ext
  simp only [ofDate, Civil.date]
  omega

@[simp] theorem secondOfDay_ofDate (date : Date) (second : Fin 86400) (leap : Bool) :
    (ofDate date second leap).secondOfDay = second := by
  apply Fin.ext
  simp only [ofDate, secondOfDay]
  omega

/-- A civil time is its date, its second of the day and its leap mark. -/
@[simp] theorem ofDate_date (c : Civil) : ofDate c.date c.secondOfDay c.leap = c := by
  apply ext
  · simp only [ofDate, date, secondOfDay]
    omega
  · rfl

end Civil

end Almanac
