import Almanac.Proofs.Rule.Increments

/-!
# What a week holds

A weekly rule spreads an increment over the week that it lies in. Where a week begins is up to the rule.
This file fixes

* **the weeks of a calendar** (`Date.weekBegin`): every date lies in a row of seven days that begins on
  a given weekday, and dates lie whole weeks apart or in one week (`Date.weeksSince`). The first week of
  the calendar may begin before it;
* **the days that a weekly rule takes** (`Rule.TakesInWeek`): the listed weekdays, or that of the seed.
  If months are listed, both the day and the date of the increment have to lie in one of them;
* **an increment holds these days at the times of day that are taken**
  (`Rule.ByWeekday.mem_civilCandidates_iff`), and nothing if its week begins before the calendar.
-/

namespace Almanac

/-! ## 1. Weeks -/

namespace Date

/-- The number of the day with which the week of a date begins. -/
def weekBegin (d : Date) (first : Weekday) : Int := d.day - d.weekday.after first

/-- How many weeks the week of one date is behind that of another. -/
def weeksSince (d e : Date) (first : Weekday) : Int := (d.weekBegin first - e.weekBegin first) / 7

variable {d e : Date} {first : Weekday}

theorem weekBegin_eq (d : Date) (first : Weekday) :
    d.weekBegin first = d.day - (d.day + 5 - first.index) % 7 := by
  unfold weekBegin
  rw [d.after_weekday]

/-- Weeks begin a whole number of weeks apart. -/
theorem weekBegin_add_weeksSince (d e : Date) (first : Weekday) :
    d.weekBegin first = e.weekBegin first + 7 * d.weeksSince e first := by
  unfold weeksSince
  rw [weekBegin_eq, weekBegin_eq]
  omega

/-- A date lies in its week. -/
theorem weekBegin_le (d : Date) (first : Weekday) :
    d.weekBegin first ≤ d.day ∧ d.day < d.weekBegin first + 7 := by
  rw [weekBegin_eq]
  omega

/-- A date lies in no other week. -/
theorem weekBegin_eq_of_within (low : e.weekBegin first ≤ d.day) (high : d.day < e.weekBegin first + 7) :
    d.weekBegin first = e.weekBegin first := by
  have := weekBegin_add_weeksSince d e first
  have := d.weekBegin_le first
  omega

/-- In one week a weekday is one date. -/
theorem day_eq_of_weekday (week : d.weekBegin first = e.weekBegin first) (same : d.weekday = e.weekday) :
    d.day = e.day := by
  unfold weekBegin at week
  rw [same] at week
  omega

/-- Whole weeks later the weekday is the same. -/
theorem weekday_of_day_eq {weeks : Int} (h : d.day = e.day + 7 * weeks) : d.weekday = e.weekday := by
  refine Weekday.eq_of_index_eq ?_
  have := d.index_weekday
  have := e.index_weekday
  omega

theorem weeksSince_of_day_eq {weeks : Int} (h : d.day = e.day + 7 * weeks) :
    d.weeksSince e first = weeks := by
  unfold weeksSince
  rw [weekBegin_eq, weekBegin_eq, h]
  omega

/-- The day of a date's week that has the weekday of another date, unless the calendar does not reach
    it. -/
def onWeekdayOf? (d e : Date) (first : Weekday) : Option Date :=
  d.addDays? ((e.weekday.after first : Int) - d.weekday.after first)

/-- In the week of a date it is the one day with the weekday. -/
theorem onWeekdayOf?_eq_some {anchor : Date} (week : d.weekBegin first = anchor.weekBegin first)
    (same : anchor.weekday = e.weekday) : d.onWeekdayOf? e first = some anchor := by
  refine ofDay?_eq_some_iff.mpr ?_
  unfold weekBegin at week
  rw [← same]
  omega

/-- The day of a weekday is as far into its week as the weekday is. -/
theorem weekday_eq_iff (d : Date) (first : Weekday) {day : Weekday} :
    day = d.weekday ↔ d.day = d.weekBegin first + day.after first := by
  unfold weekBegin
  constructor
  · intro same
    rw [same]
    omega
  · intro own
    refine Weekday.eq_of_index_eq ?_
    have := day.index_lt
    have := d.weekday.index_lt
    have := first.index_lt
    unfold Weekday.after at own
    omega

/-- A week that lies in the calendar has every weekday. -/
theorem exists_weekday (begins : firstDay ≤ e.weekBegin first) (room : e.weekBegin first + 7 ≤ lastDay)
    (day : Weekday) : ∃ d : Date, day = d.weekday ∧ d.weekBegin first = e.weekBegin first := by
  have small := day.after_lt first
  let d : Date := ⟨e.weekBegin first + day.after first, by omega, by omega⟩
  have own : d.day = e.weekBegin first + day.after first := rfl
  have week : d.weekBegin first = e.weekBegin first := weekBegin_eq_of_within (by omega) (by omega)
  exact ⟨d, (d.weekday_eq_iff first).mpr (week ▸ own), week⟩

end Date

namespace Rule

variable {r : Rule} {root period c x : Civil}

/-! ## 2. Days -/

/-- A weekly rule that names its days by month and weekday alone, and takes all of them. -/
structure ByWeekday (r : Rule) : Prop where
  weekly : r.frequency = .weekly
  weekNumbers : r.parts.weekNumbers = []
  yearDays : r.parts.yearDays = []
  monthDays : r.parts.monthDays = []
  positions : r.parts.positions = []

/-- A weekday that is listed, with whatever ordinal, or that of the seed if none is. -/
def TakesWeekday (r : Rule) (root d : Date) : Prop :=
  if r.parts.days = [] then d.weekday = root.weekday else ∃ e ∈ r.parts.days, e.day = d.weekday

instance (r : Rule) (root d : Date) : Decidable (r.TakesWeekday root d) :=
  inferInstanceAs (Decidable (ite _ _ _))

/-- Some weekday is taken in every week. -/
theorem exists_takesWeekday (r : Rule) (root : Date) :
    ∃ day, ∀ d : Date, day = d.weekday → r.TakesWeekday root d := by
  unfold TakesWeekday
  cases r.parts.days with
  | nil => exact ⟨root.weekday, fun d same => by rw [if_pos rfl, same]⟩
  | cons e rest =>
    refine ⟨e.day, fun d same => ?_⟩
    rw [if_neg (List.cons_ne_nil e rest)]
    exact ⟨e, List.mem_cons_self, same⟩

/-- **The dates that a weekly rule takes in the week of a date.** -/
structure TakesInWeek (r : Rule) (root period d : Date) : Prop where
  week : d.weekBegin r.weekStart = period.weekBegin r.weekStart
  begins : firstDay ≤ period.weekBegin r.weekStart
  weekday : r.TakesWeekday root d
  months : r.parts.months ≠ [] → period.month ∈ r.parts.months ∧ d.month ∈ r.parts.months

/-- What a weekly rule finds in the week of a civil time. -/
theorem mem_byDay_week_iff (weekly : r.frequency = .weekly) {entries : List DayEntry} :
    x ∈ r.byDay entries c ↔ x.clock = c.clock ∧
      x.date.weekBegin r.weekStart = c.date.weekBegin r.weekStart ∧
      firstDay ≤ c.date.weekBegin r.weekStart ∧ (∃ e ∈ entries, e.day = x.date.weekday) ∧
      (r.parts.months ≠ [] → x.date.month ∈ r.parts.months) := by
  have scope : r.dayScope = .week := by
    unfold dayScope
    rw [weekly]
  have upTo := c.date.weekBegin_le r.weekStart
  have last := c.date.le_last
  unfold byDay
  rw [scope]
  cases hs : c.date.addDays? (-(c.date.weekday.after r.weekStart : Int)) with
  | none =>
    refine ⟨nofun, fun ⟨_, _, begins, _, _⟩ => ?_⟩
    obtain ⟨start, own⟩ : ∃ start : Date, start.day = c.date.weekBegin r.weekStart :=
      ⟨⟨c.date.weekBegin r.weekStart, begins, by omega⟩, rfl⟩
    cases (Date.ofDay?_eq_some_iff.mpr own).symm.trans hs
  | some start =>
    have begin' : start.day = c.date.weekBegin r.weekStart := Date.ofDay?_eq_some_iff.mp hs
    have low := start.first_le
    simp only [List.mem_map, List.mem_filter, List.mem_filterMap, Bool.or_eq_true, List.isEmpty_iff,
      List.contains_iff_mem]
    constructor
    · rintro ⟨d, ⟨⟨e, mem, hd⟩, month⟩, rfl⟩
      have own : d.day = c.date.weekBegin r.weekStart + e.day.after r.weekStart := by
        rw [← begin']
        exact Date.ofDay?_eq_some_iff.mp hd
      rw [c.clock_onDate, c.date_onDate]
      have small := Weekday.after_lt e.day r.weekStart
      have week : d.weekBegin r.weekStart = c.date.weekBegin r.weekStart :=
        Date.weekBegin_eq_of_within (by omega) (by omega)
      refine ⟨rfl, week, begin' ▸ low, ⟨e, mem, ?_⟩, month.resolve_left⟩
      rw [d.weekday_eq_iff r.weekStart, week]
      exact own
    · intro ⟨clock, week, _, ⟨e, mem, weekday⟩, month⟩
      have own := (x.date.weekday_eq_iff r.weekStart).mp weekday
      refine ⟨x.date, ⟨⟨e, mem, Date.ofDay?_eq_some_iff.mpr ?_⟩, ?_⟩,
        (eq_onDate_iff.mpr ⟨clock, rfl⟩).symm⟩
      · rw [begin', ← week]
        exact own
      · exact or_iff_not_imp_left.mpr month

namespace ByWeekday

variable (h : r.ByWeekday)

include h

/-- BYDAY has a stage in every weekly rule. -/
theorem daysFor_ne_nil (root : Civil) : r.daysFor root ≠ [] := by
  by_cases repeats : r.RepeatsWeekday
  · rw [daysFor_of_repeats repeats]
    exact List.cons_ne_nil _ _
  · rw [daysFor_of_not repeats]
    exact fun none => repeats ⟨none, .inl h.weekly⟩

/-- The entries that a weekly rule goes by mean the weekdays that it takes. -/
theorem exists_mem_daysFor_iff (d : Date) :
    (∃ e ∈ r.daysFor root, e.day = d.weekday) ↔ r.TakesWeekday root.date d := by
  unfold TakesWeekday
  by_cases none : r.parts.days = []
  · rw [daysFor_of_repeats ⟨none, .inl h.weekly⟩, if_pos none]
    simp only [List.mem_singleton, exists_eq_left]
    exact eq_comm
  · rw [daysFor_of_not fun repeats => none repeats.1, if_neg none]

/-- BYMONTH lets an increment of a weekly rule through by the date of the increment. -/
theorem mem_stageOf_byMonth : c ∈ (stageOf r.parts.months r.byMonth).foldl runStage [period] ↔
    c = period ∧ (r.parts.months ≠ [] → period.date.month ∈ r.parts.months) := by
  have limits : ∀ c, r.byMonth c = keepIf (fun c => r.inListedMonth c.date) c := fun c => by
    unfold byMonth
    rw [h.weekly]
    rfl
  rw [mem_stageOf_keepIf r.inListedMonth limits, List.mem_singleton, unlessEmpty_iff]
  refine and_congr_right fun own => ?_
  rw [own]
  unfold inListedMonth
  rw [List.contains_iff_mem]

/-- **The stages for dates find the days of the week that the rule takes.** -/
theorem mem_dateStages_iff : c ∈ (r.dateStages root).foldl runStage [period] ↔
    c.clock = period.clock ∧ r.TakesInWeek root.date period.date c.date := by
  have notMonth : ¬ r.RepeatsMonthDay := fun repeats => by
    have hf := repeats.2.2
    rw [h.weekly] at hf
    simp at hf
  have stages : r.dateStages root =
      stageOf r.parts.months r.byMonth ++ [r.byDay (r.daysFor root)] := by
    unfold dateStages
    rw [h.weekNumbers, h.yearDays, monthDaysFor_of_not notMonth, h.monthDays]
    simp only [stageOf, List.isEmpty_nil, if_true, List.append_nil,
      List.isEmpty_eq_false_iff.mpr (h.daysFor_ne_nil root), Bool.false_eq_true, if_false]
  rw [stages, List.foldl_append, List.foldl_cons, List.foldl_nil, mem_runStage_iff]
  simp only [h.mem_stageOf_byMonth, mem_byDay_week_iff h.weekly, h.exists_mem_daysFor_iff]
  constructor
  · rintro ⟨b, ⟨rfl, month⟩, clock, week, begins, day, own⟩
    exact ⟨clock, week, begins, day, fun listed => ⟨month listed, own listed⟩⟩
  · rintro ⟨clock, taken⟩
    exact ⟨period, ⟨rfl, fun listed => (taken.months listed).1⟩, clock, taken.week, taken.begins,
      taken.weekday, fun listed => (taken.months listed).2⟩

/-! ## 3. Increments -/

/-- **An increment holds the days of its week that the rule takes**, at the times of day that it takes; a
    seed without a time of day leaves the clock alone. -/
theorem mem_civilCandidates_iff (dateOnly : Bool) : x ∈ r.civilCandidates root period dateOnly ↔
    r.TakesInWeek root.date period.date x.date ∧
      if dateOnly then x.clock = period.clock else r.TakesClock period x := by
  cases dateOnly with
  | true =>
    have all : r.civilCandidates root period true = (r.dateStages root).foldl runStage [period] := by
      unfold civilCandidates byPosition stages dateStages
      rw [h.positions]
      simp only [List.isEmpty_nil, if_true, List.append_nil]
    rw [all, h.mem_dateStages_iff, if_pos rfl]
    exact and_comm
  | false =>
    have rank : Frequency.daily.rank ≤ r.frequency.rank := by
      rw [h.weekly]
      decide
    rw [if_neg Bool.false_ne_true]
    exact mem_civilCandidates_iff_date h.positions rank fun c => h.mem_dateStages_iff

end ByWeekday

/-- A rule that lists no times of day leaves the clock alone. -/
theorem takesClock_iff_of_none (hours : r.parts.hours = []) (minutes : r.parts.minutes = [])
    (seconds : r.parts.seconds = []) : r.TakesClock c x ↔ x.clock = c.clock := by
  constructor
  · intro taken
    obtain ⟨hour, minute, second, leap⟩ := taken
    rw [hours] at hour
    rw [minutes] at minute
    rw [seconds] at second
    have hour : x.hour = c.hour := hour
    have minute : x.minute = c.minute := minute
    have second : x.second = c.second := second
    refine Prod.ext (Fin.ext ?_) leap
    unfold Civil.hour at hour
    unfold Civil.minute at minute
    unfold Civil.second at second
    show x.secondOfDay.val = c.secondOfDay.val
    omega
  · intro same
    rw [← takesClock_congr same]
    exact ⟨by rw [hours]; rfl, by rw [minutes]; rfl, by rw [seconds]; rfl, rfl⟩

end Rule

end Almanac
