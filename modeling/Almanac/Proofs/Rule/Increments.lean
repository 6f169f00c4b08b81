import Almanac.Proofs.Calendar.Weeks
import Almanac.Proofs.Rule.Clocks

/-!
# What an increment consists of

The stages of a rule spread an increment over its unit, keep some of it, or repeat on the day of the
seed, by the parts that are there. This file says what they leave, once, by what the parts say of a
civil time and with no word about stages:

* **the parts that limit dates** (`Rule.MeetsDate`) say the same in every rule: the month is listed, the
  week, the day of the year and the day of the month are at a listed place, from either end;
* what a rule takes in a year (`Rule.TakesInYear`), in a month (`Rule.TakesInMonth`) and in a unit of a
  day or less (`Rule.TakesDate`) differs in the weekdays, whose ordinals count in the year, in the month
  or not at all, and in the day of the seed, which stands in where nothing names a day;
* what passes the tests of the stages for dates is told by these parts and by the day of the seed
  (`Rule.datePasses_iff`), and the stages find it in a year (`Rule.mem_dateStages_yearly_iff`), in a month
  and, as they all limit there, in a day or less (`Rule.mem_dateStages_limit_iff`);
* then the clock takes what is listed for it, or stays (`Rule.TakesClock`).

Main results: `Rule.candidates_of_year` and `Rule.candidates_of_month_or_less`.
-/

namespace Almanac

namespace Rule

variable {r : Rule} {root period c x : Civil} {d : Date}

/-! ## 1. What the parts say -/

/-- What the parts that limit dates say of a date. -/
structure MeetsDate (r : Rule) (d : Date) : Prop where
  month : r.parts.months ≠ [] → d.month ∈ r.parts.months
  week : r.parts.weekNumbers ≠ [] → ∃ n ∈ r.parts.weekNumbers, d.InWeek r.weekStart n
  yearDay : r.parts.yearDays ≠ [] →
    ∃ n ∈ r.parts.yearDays, IsPlace n (d.ordinal - 1) (daysInYear d.year - d.ordinal)
  monthDay : r.parts.monthDays ≠ [] → ∃ n ∈ r.parts.monthDays,
    IsPlace n (d.dayOfMonth - 1) (daysInMonth d.year d.month - d.dayOfMonth)

/-- **The dates that a yearly rule takes in the year of a date.** The ordinals of weekdays count in the
    month if months are listed and in the year if not, and do not count if weeks are listed but no days of
    the year or of the month. Where nothing names a day, that of the seed stands in: its day of the month,
    in the month of the increment unless months are listed, or in a listed week its weekday. -/
structure TakesInYear (r : Rule) (root period d : Date) : Prop extends r.MeetsDate d where
  year : d.year = period.year
  weekday : r.parts.days ≠ [] → ∃ e ∈ r.parts.days, e.day = d.weekday ∧ (e.ordinal = 0 ∨
    (r.parts.weekNumbers ≠ [] ∧ r.parts.yearDays = [] ∧ r.parts.monthDays = []) ∨
    if r.parts.months = [] then d.IsNthOfYear e.ordinal else d.IsNthOfMonth e.ordinal)
  sameDay : r.parts.weekNumbers = [] → r.parts.yearDays = [] → r.parts.monthDays = [] →
    r.parts.days = [] →
      d.dayOfMonth = root.dayOfMonth ∧ (r.parts.months = [] → d.month = period.month)
  sameWeekday : r.parts.weekNumbers ≠ [] → r.parts.yearDays = [] → r.parts.monthDays = [] →
    r.parts.days = [] → d.weekday = root.weekday

/-- **The dates that a monthly rule takes in the month of a date.** Ordinals count in the month, and the
    day of the month of the seed stands in where nothing names a day. -/
structure TakesInMonth (r : Rule) (root period d : Date) : Prop extends r.MeetsDate d where
  year : d.year = period.year
  sameMonth : d.month = period.month
  weekday : r.parts.days ≠ [] →
    ∃ e ∈ r.parts.days, e.day = d.weekday ∧ (e.ordinal = 0 ∨ d.IsNthOfMonth e.ordinal)
  sameDay : r.parts.monthDays = [] → r.parts.days = [] → d.dayOfMonth = root.dayOfMonth

/-- **The dates that a rule of days or less takes**: all parts limit, and no ordinal counts. -/
structure TakesDate (r : Rule) (d : Date) : Prop extends r.MeetsDate d where
  weekday : r.parts.days ≠ [] → ∃ e ∈ r.parts.days, e.day = d.weekday

theorem unlessEmpty_iff {α : Type} {values : List α} {test : Date → Bool} :
    unlessEmpty values test d = true ↔ (values ≠ [] → test d = true) := by
  unfold unlessEmpty
  rw [Bool.or_eq_true, List.isEmpty_iff, or_iff_not_imp_left]

/-- The tests on dates, told by what they say. -/
theorem meetsDate_iff (inland : d.Inland) : r.MeetsDate d ↔
    unlessEmpty r.parts.months r.inListedMonth d = true ∧
    unlessEmpty r.parts.weekNumbers r.inListedWeek d = true ∧
    unlessEmpty r.parts.yearDays r.onListedYearDay d = true ∧
    unlessEmpty r.parts.monthDays r.onListedMonthDay d = true := by
  unfold inListedMonth onListedYearDay onListedMonthDay
  simp only [unlessEmpty_iff, inListedWeek_iff inland, placed_ordinal_iff_isPlace,
    placed_dayOfMonth_iff_isPlace, List.contains_iff_mem]
  exact ⟨fun h => ⟨h.month, h.week, h.yearDay, h.monthDay⟩,
    fun ⟨month, week, yearDay, monthDay⟩ => ⟨month, week, yearDay, monthDay⟩⟩

/-! ## 2. The stages for dates and those for the clock -/

/-- Without positions, what an increment finds is what the stages find, in ascending order. -/
theorem civilCandidates_eq (hpos : r.parts.positions = []) (root period : Civil) :
    r.civilCandidates root period false =
      (r.dateStages root ++ (stageOf r.parts.hours r.byHour ++ stageOf r.parts.minutes r.byMinute ++
        stageOf r.parts.seconds r.bySecond)).foldl runStage [period] := by
  unfold civilCandidates byPosition stages dateStages
  dsimp only
  rw [hpos, if_pos List.isEmpty_nil, if_neg Bool.false_ne_true]

/-- What one stage after the other finds ascends. -/
theorem pairwise_foldl_runStage (stages : List (Civil → List Civil)) {times : List Civil}
    (h : times.Pairwise fun a b => a.rank < b.rank) :
    (stages.foldl runStage times).Pairwise fun a b => a.rank < b.rank := by
  induction stages generalizing times with
  | nil => exact h
  | cons stage rest ih => exact ih (pairwise_ascending _ _)

/-- **An increment ascends, and consists of what the stages for the clock lead to from the dates that the
    stages before them find.** -/
theorem civilCandidates_spec (hpos : r.parts.positions = []) (root period : Civil) :
    (r.civilCandidates root period false).Pairwise (fun a b => a.rank < b.rank) ∧
      ∀ x, x ∈ r.civilCandidates root period false ↔
        ∃ c ∈ (r.dateStages root).foldl runStage [period],
          x.date = c.date ∧ r.TakesClock c x ∧ r.SameClock c x := by
  rw [civilCandidates_eq hpos]
  refine ⟨pairwise_foldl_runStage _ (List.pairwise_singleton _ _), fun x => ?_⟩
  rw [List.foldl_append, mem_foldl_runStage_iff]
  simp only [leads_clock_iff]

/-! ## 3. What passes the tests -/

/-- The one place of a seed's day of the month is that of the same day. -/
theorem placed_dayOfMonth_self (day d : Date) :
    placed [(day.dayOfMonth : Int)] d.dayOfMonth (daysInMonth d.year d.month) = true ↔
      d.dayOfMonth = day.dayOfMonth := by
  have low := d.fields_spec.2.2.1
  have some' := day.fields_spec.2.2.1
  rw [placed_dayOfMonth_iff_isPlace]
  unfold IsPlace
  simp only [List.mem_singleton, exists_eq_left]
  omega

section Passes

variable (inland : d.Inland) (root : Civil)

include inland

theorem datePasses_of_repeatsMonthDay (h : r.RepeatsMonthDay) :
    r.datePasses root d = true ↔ r.MeetsDate d ∧ d.dayOfMonth = root.date.dayOfMonth := by
  rw [meetsDate_iff inland, h.1]
  unfold datePasses
  rw [monthDaysFor_of_repeats h, daysFor_eq_nil_of_repeats h]
  simp only [Bool.and_eq_true, unlessEmpty, List.isEmpty_nil, List.isEmpty_cons, Bool.true_or,
    Bool.false_or, and_true, placed_dayOfMonth_self, and_assoc]

theorem datePasses_of_repeatsWeekday (h : r.RepeatsWeekday) (month : ¬ r.RepeatsMonthDay) :
    r.datePasses root d = true ↔ r.MeetsDate d ∧ d.weekday = root.date.weekday := by
  rw [meetsDate_iff inland]
  unfold datePasses
  rw [monthDaysFor_of_not month, daysFor_of_repeats h]
  unfold onListedMonthDay
  simp only [Bool.and_eq_true, unlessEmpty, List.isEmpty_cons, Bool.false_or, List.any_cons,
    List.any_nil, Bool.or_false, means, DayEntry.every, decide_true, Bool.true_or, Bool.and_true,
    decide_eq_true_eq, and_assoc, eq_comm (a := d.weekday)]

theorem datePasses_of_not (month : ¬ r.RepeatsMonthDay) (week : ¬ r.RepeatsWeekday) :
    r.datePasses root d = true ↔ r.MeetsDate d ∧
      (r.parts.days ≠ [] → ∃ e ∈ r.parts.days, r.means e d = true) := by
  rw [meetsDate_iff inland]
  unfold datePasses
  rw [monthDaysFor_of_not month, daysFor_of_not week]
  have weekday : unlessEmpty r.parts.days (fun d => r.parts.days.any (r.means · d)) d = true ↔
      (r.parts.days ≠ [] → ∃ e ∈ r.parts.days, r.means e d = true) := by
    rw [unlessEmpty_iff, List.any_eq_true]
  simp only [Bool.and_eq_true, weekday, and_assoc]
  rfl

/-- **What passes the tests meets the parts that limit dates, is meant by the weekdays, and is the day of
    the seed where that stands in.** -/
theorem datePasses_iff : r.datePasses root d = true ↔ r.MeetsDate d ∧
    (r.parts.days ≠ [] → ∃ e ∈ r.parts.days, r.means e d = true) ∧
    (r.RepeatsMonthDay → d.dayOfMonth = root.date.dayOfMonth) ∧
    (r.RepeatsWeekday → d.weekday = root.date.weekday) := by
  by_cases month : r.RepeatsMonthDay
  · have week : ¬ r.RepeatsWeekday := fun week => List.cons_ne_nil _ _
      ((daysFor_of_repeats week root).symm.trans (daysFor_eq_nil_of_repeats month root))
    rw [datePasses_of_repeatsMonthDay inland root month]
    simp only [month, week, month.2.1, ne_eq, not_true_eq_false, false_imp_iff, true_imp_iff,
      true_and, and_true]
  · by_cases week : r.RepeatsWeekday
    · rw [datePasses_of_repeatsWeekday inland root week month]
      simp only [month, week, week.1, ne_eq, not_true_eq_false, false_imp_iff, true_imp_iff, true_and]
    · rw [datePasses_of_not inland root month week]
      simp only [month, week, false_imp_iff, and_true]

end Passes

/-! ## 4. Years -/

theorem repeatsMonthDay_iff (yearly : r.frequency = .yearly) : r.RepeatsMonthDay ↔
    r.parts.weekNumbers = [] ∧ r.parts.yearDays = [] ∧ r.parts.monthDays = [] ∧
      r.parts.days = [] := by
  unfold RepeatsMonthDay
  rw [yearly]
  tauto

theorem repeatsWeekday_iff (yearly : r.frequency = .yearly) : r.RepeatsWeekday ↔
    r.parts.weekNumbers ≠ [] ∧ r.parts.yearDays = [] ∧ r.parts.monthDays = [] ∧
      r.parts.days = [] := by
  unfold RepeatsWeekday
  rw [yearly]
  tauto

/-- In a yearly rule ordinals do not count where listed weeks alone fix the day. -/
theorem dayScope_eq_anyWhere_iff (yearly : r.frequency = .yearly) : r.dayScope = .anyWhere ↔
    r.parts.weekNumbers ≠ [] ∧ r.parts.yearDays = [] ∧ r.parts.monthDays = [] := by
  unfold dayScope
  simp only [yearly, ← List.isEmpty_iff, ne_eq]
  cases r.parts.months.isEmpty <;> cases r.parts.weekNumbers.isEmpty <;>
    cases r.parts.yearDays.isEmpty <;> cases r.parts.monthDays.isEmpty <;> decide

theorem means_year_iff {e : DayEntry} (yearly : r.frequency = .yearly) : r.means e d = true ↔
    e.day = d.weekday ∧ (e.ordinal = 0 ∨
      (r.parts.weekNumbers ≠ [] ∧ r.parts.yearDays = [] ∧ r.parts.monthDays = []) ∨
      if r.parts.months = [] then d.IsNthOfYear e.ordinal else d.IsNthOfMonth e.ordinal) := by
  unfold means IsNth
  simp only [Bool.and_eq_true, Bool.or_eq_true, decide_eq_true_eq, dayScope_eq_anyWhere_iff yearly,
    or_assoc, yearly, true_and]

/-- A yearly rule that names neither days nor months has the stage for days of the month only, which stays
    in the month of the increment. -/
theorem mem_dateStages_open_iff (yearly : r.frequency = .yearly) (hskip : r.skip = .leaveOut)
    (repeats : r.RepeatsMonthDay) (noMonths : r.parts.months = []) (root : Civil) :
    c ∈ (r.dateStages root).foldl runStage [period] ↔
      c.clock = period.clock ∧ c.date.year = period.date.year ∧ c.date.month = period.date.month ∧
        r.datePasses root c.date = true := by
  obtain ⟨weeks, yearDays, monthDays, -⟩ := (repeatsMonthDay_iff yearly).mp repeats
  have one : (r.dateStages root).foldl runStage [period] =
      runStage [period] (r.byMonthDay [(root.date.dayOfMonth : Int)]) := by
    unfold dateStages
    rw [monthDaysFor_of_repeats repeats, daysFor_eq_nil_of_repeats repeats, noMonths, weeks, yearDays]
    rfl
  have passes : r.datePasses root c.date = placed [(root.date.dayOfMonth : Int)] c.date.dayOfMonth
      (daysInMonth c.date.year c.date.month) := by
    unfold datePasses
    rw [monthDaysFor_of_repeats repeats, daysFor_eq_nil_of_repeats repeats, noMonths, weeks, yearDays]
    exact Bool.and_true _
  rw [one, passes, mem_runStage_iff]
  simp only [List.mem_singleton, exists_eq_left,
    mem_byMonthDay_iff (.inr yearly) weeks yearDays hskip, eq_onDate_iff]
  constructor
  · intro ⟨d, ⟨clock, own⟩, year, month, place⟩
    rw [own]
    exact ⟨clock, year, month.resolve_left fun wide => wide.2.2 monthDays, place⟩
  · intro ⟨clock, year, month, place⟩
    exact ⟨c.date, ⟨clock, rfl⟩, year, .inr month, place⟩

/-- **The stages for dates find what passes all tests in the year**, or in the month of the increment where
    a yearly rule names neither days nor months. -/
theorem mem_dateStages_yearly_iff (yearly : r.frequency = .yearly) (hskip : r.skip = .leaveOut)
    (root : Civil) (early : period.date.year < lastYear) :
    c ∈ (r.dateStages root).foldl runStage [period] ↔
      c.clock = period.clock ∧ c.date.year = period.date.year ∧
        (r.RepeatsMonthDay → r.parts.months = [] → c.date.month = period.date.month) ∧
          r.datePasses root c.date = true := by
  by_cases leftOpen : r.RepeatsMonthDay ∧ r.parts.months = []
  · obtain ⟨repeats, noMonths⟩ := leftOpen
    rw [mem_dateStages_open_iff yearly hskip repeats noMonths]
    simp only [repeats, noMonths, true_imp_iff]
  · have unit : r.unitIndex c = r.unitIndex period ↔ c.date.year = period.date.year := by
      unfold unitIndex
      rw [yearly]
      rfl
    rw [mem_dateStages_iff (.inr (.inl yearly)) hskip root early
      fun repeats _ noMonths => leftOpen ⟨repeats, noMonths⟩, unit]
    have stays : r.RepeatsMonthDay → r.parts.months = [] → c.date.month = period.date.month :=
      fun repeats noMonths => absurd ⟨repeats, noMonths⟩ leftOpen
    simp only [iff_true_intro stays, true_and]

/-- The dates of a year. -/
theorem mem_dateStages_year_iff (yearly : r.frequency = .yearly) (hskip : r.skip = .leaveOut)
    (root : Civil) (inland : period.date.Inland) :
    c ∈ (r.dateStages root).foldl runStage [period] ↔
      c.clock = period.clock ∧ r.TakesInYear root.date period.date c.date := by
  rw [mem_dateStages_yearly_iff yearly hskip root inland.lt_lastYear]
  refine and_congr_right fun _ => ?_
  constructor
  · intro ⟨year, month, passes⟩
    obtain ⟨meets, weekday, sameDay, sameWeekday⟩ := (datePasses_iff (inland.of_year year) root).mp passes
    simp only [means_year_iff yearly] at weekday
    rw [repeatsMonthDay_iff yearly] at month sameDay
    rw [repeatsWeekday_iff yearly] at sameWeekday
    exact
      { toMeetsDate := meets
        year := year
        weekday := weekday
        sameDay := fun weeks yearDays monthDays days =>
          have none := ⟨weeks, yearDays, monthDays, days⟩
          ⟨sameDay none, month none⟩
        sameWeekday := fun weeks yearDays monthDays days =>
          sameWeekday ⟨weeks, yearDays, monthDays, days⟩ }
  · intro h
    rw [datePasses_iff (inland.of_year h.year), repeatsMonthDay_iff yearly, repeatsWeekday_iff yearly]
    simp only [means_year_iff yearly]
    exact ⟨h.year, fun ⟨weeks, yearDays, monthDays, days⟩ => (h.sameDay weeks yearDays monthDays days).2,
      h.toMeetsDate, h.weekday,
      fun ⟨weeks, yearDays, monthDays, days⟩ => (h.sameDay weeks yearDays monthDays days).1,
      fun ⟨weeks, yearDays, monthDays, days⟩ => h.sameWeekday weeks yearDays monthDays days⟩

/-- What is taken at a civil time is told by its clock. -/
theorem takesClock_congr (h : c.clock = period.clock) : r.TakesClock c x ↔ r.TakesClock period x := by
  obtain ⟨second, leap⟩ := Prod.mk.inj h
  have hour : c.hour = period.hour := congrArg (fun s : Fin 86400 => s.val / 3600) second
  have minute : c.minute = period.minute := congrArg (fun s : Fin 86400 => s.val / 60 % 60) second
  have sec : c.second = period.second := congrArg (fun s : Fin 86400 => s.val % 60) second
  refine ⟨fun h => ⟨hour ▸ h.hour, minute ▸ h.minute, sec ▸ h.second, leap ▸ h.leap⟩,
    fun h => ⟨hour ▸ h.hour, minute ▸ h.minute, sec ▸ h.second, leap ▸ h.leap⟩⟩

/-- In a rule of days or longer, the candidates are the dates that are taken at the times of day that
    are. -/
theorem mem_civilCandidates_iff_date (hpos : r.parts.positions = [])
    (rank : Frequency.daily.rank ≤ r.frequency.rank) {dates : Date → Prop} {root : Civil}
    (h : ∀ c, c ∈ (r.dateStages root).foldl runStage [period] ↔
      c.clock = period.clock ∧ dates c.date) :
    x ∈ r.civilCandidates root period false ↔ dates x.date ∧ r.TakesClock period x := by
  rw [(civilCandidates_spec hpos root period).2]
  constructor
  · intro ⟨c, hc, date, takes, _⟩
    obtain ⟨clock, taken⟩ := (h c).mp hc
    exact ⟨date ▸ taken, (takesClock_congr clock).mp takes⟩
  · intro ⟨taken, takes⟩
    have clock := period.clock_onDate x.date
    have date := period.date_onDate x.date
    exact ⟨period.onDate x.date, (h _).mpr ⟨clock, date.symm ▸ taken⟩, date.symm,
      (takesClock_congr clock).mpr takes, sameClock_of_le rank⟩

/-- **The candidates of a year** are, in ascending order, the civil times of the year that satisfy every
    part of the rule. -/
theorem candidates_of_year (yearly : r.frequency = .yearly) (hskip : r.skip = .leaveOut)
    (hpos : r.parts.positions = []) (root period : Civil) (inland : period.date.Inland) :
    (r.civilCandidates root period false).Pairwise (fun a b => a.rank < b.rank) ∧
      ∀ x, x ∈ r.civilCandidates root period false ↔
        r.TakesInYear root.date period.date x.date ∧ r.TakesClock period x := by
  have rank : Frequency.daily.rank ≤ r.frequency.rank := by
    rw [yearly]
    decide
  exact ⟨(civilCandidates_spec hpos root period).1, fun x => mem_civilCandidates_iff_date hpos rank
    fun c => mem_dateStages_year_iff yearly hskip root inland⟩

/-- The fourth Thursday of November, at nine and at noon. -/
def fourthThursdays : Rule where
  frequency := .yearly
  parts := { RuleParts.none with months := [11], days := [⟨4, .thursday⟩], hours := [9, 12] }
  settings := .standard
  valid := by decide

/-- From a seed in September, the noon of 28 November 2024 is found at the minute of the increment. -/
theorem candidates_of_fourthThursdays :
    let seed := Civil.ofDate ⟨729634, by decide, by decide⟩ 37800 false
    let period := Civil.ofDate ⟨739496, by decide, by decide⟩ 37800 false
    let found := Civil.ofDate ⟨739583, by decide, by decide⟩ 45000 false
    period.date.Inland ∧ found ∈ fourthThursdays.civilCandidates seed period false := by
  intro seed period found
  have inland : period.date.Inland := by decide
  refine ⟨inland, ((candidates_of_year rfl rfl rfl seed period inland).2 found).mpr ⟨?_, ?_⟩⟩
  · exact
      { month := fun _ => by decide
        week := fun listed => absurd rfl listed
        yearDay := fun listed => absurd rfl listed
        monthDay := fun listed => absurd rfl listed
        year := by decide
        weekday := fun _ => ⟨⟨4, .thursday⟩, List.mem_singleton_self _, by decide, by decide⟩
        sameDay := fun _ _ _ none => nomatch none
        sameWeekday := fun listed => absurd rfl listed }
  · exact ⟨by decide, by decide, by decide, rfl⟩

/-! ## 5. Months, days and less -/

theorem means_month_iff {e : DayEntry} (monthly : r.frequency = .monthly) : r.means e d = true ↔
    e.day = d.weekday ∧ (e.ordinal = 0 ∨ d.IsNthOfMonth e.ordinal) := by
  have scope : r.dayScope ≠ .anyWhere := by
    unfold dayScope
    rw [monthly]
    nofun
  unfold means IsNth
  simp only [Bool.and_eq_true, Bool.or_eq_true, decide_eq_true_eq, scope, monthly, reduceCtorEq,
    false_and, if_false, or_false]

/-- The dates of a month. -/
theorem mem_dateStages_month_iff (monthly : r.frequency = .monthly)
    (weeks : r.parts.weekNumbers = []) (yearDays : r.parts.yearDays = [])
    (hskip : r.skip = .leaveOut) (root : Civil) (inland : period.date.Inland) :
    c ∈ (r.dateStages root).foldl runStage [period] ↔
      c.clock = period.clock ∧ r.TakesInMonth root.date period.date c.date := by
  have hr : r.TakesDays := .inr (.inr ⟨monthly, weeks, yearDays⟩)
  have unit : r.unitIndex c = r.unitIndex period ↔
      c.date.year = period.date.year ∧ c.date.month = period.date.month := by
    refine ⟨fun h => ?_, fun ⟨year, month⟩ => ?_⟩
    · obtain ⟨year, month⟩ := fields_of_unitIndex_eq hr h
      exact ⟨year, month (by rw [monthly]; decide)⟩
    · unfold unitIndex
      rw [monthly]
      exact Date.monthIndex_eq year month
  have week : ¬ r.RepeatsWeekday := fun ⟨_, hf⟩ => by
    rw [monthly] at hf
    simp at hf
  rw [mem_dateStages_iff hr hskip root inland.lt_lastYear fun _ yearly =>
    (nomatch monthly.symm.trans yearly), unit]
  refine and_congr_right fun _ => ?_
  constructor
  · intro ⟨⟨year, month⟩, passes⟩
    obtain ⟨meets, weekday, sameDay, -⟩ := (datePasses_iff (inland.of_year year) root).mp passes
    simp only [means_month_iff monthly] at weekday
    exact
      { toMeetsDate := meets
        year := year
        sameMonth := month
        weekday := weekday
        sameDay := fun monthDays days => sameDay ⟨monthDays, days, .inl monthly⟩ }
  · intro h
    rw [datePasses_iff (inland.of_year h.year)]
    simp only [means_month_iff monthly]
    exact ⟨⟨h.year, h.sameMonth⟩, h.toMeetsDate, h.weekday,
      fun repeats => h.sameDay repeats.1 repeats.2.1, fun own => absurd own week⟩

/-- A limiting stage keeps what passes its test, and a part that lists nothing has no stage. -/
theorem mem_stageOf_keepIf {α : Type} {values : List α} {stage : Civil → List Civil}
    {times : List Civil} (test : Date → Bool)
    (limits : ∀ c, stage c = keepIf (fun c => test c.date) c) :
    c ∈ (stageOf values stage).foldl runStage times ↔
      c ∈ times ∧ unlessEmpty values test c.date = true := by
  unfold stageOf unlessEmpty
  by_cases none : values.isEmpty
  · simp only [none, if_true, List.foldl_nil, Bool.true_or, and_true]
  · simp only [none, Bool.false_eq_true, if_false, List.foldl_cons, List.foldl_nil,
      mem_runStage_iff, limits, mem_keepIf, Bool.false_or]
    constructor
    · intro ⟨b, mem, own, passes⟩
      rw [own]
      exact ⟨mem, passes⟩
    · intro ⟨mem, passes⟩
      exact ⟨c, mem, rfl, passes⟩

theorem frequency_ne_of_le (rank : r.frequency.rank ≤ Frequency.daily.rank) :
    r.frequency ≠ .yearly ∧ r.frequency ≠ .monthly ∧ r.frequency ≠ .weekly := by
  cases hf : r.frequency <;> rw [hf] at rank <;> revert rank <;> decide

theorem dayScope_of_le (rank : r.frequency.rank ≤ Frequency.daily.rank) : r.dayScope = .anyWhere := by
  unfold dayScope
  cases hf : r.frequency <;> rw [hf] at rank <;> first | rfl | exact absurd rank (by decide)

/-- **In a rule of days or less all stages for dates limit.** -/
theorem mem_dateStages_limit_iff (rank : r.frequency.rank ≤ Frequency.daily.rank) (root : Civil) :
    c ∈ (r.dateStages root).foldl runStage [period] ↔
      c = period ∧ r.datePasses root c.date = true := by
  obtain ⟨notYearly, notMonthly, -⟩ := frequency_ne_of_le rank
  have months : ∀ c, r.byMonth c = keepIf (fun c => r.inListedMonth c.date) c := fun c => by
    unfold byMonth
    exact if_neg notYearly
  have weeks : ∀ c, r.byWeekNumber c = keepIf (fun c => r.inListedWeek c.date) c := fun c => by
    unfold byWeekNumber
    exact if_neg notYearly
  have yearDays : ∀ c, r.byYearDay c = keepIf (fun c => r.onListedYearDay c.date) c := fun c => by
    unfold byYearDay
    exact if_neg (by simp [notYearly])
  have monthDays : ∀ places c, r.byMonthDay places c = keepIf (fun c =>
      placed places c.date.dayOfMonth (daysInMonth c.date.year c.date.month)) c := fun places c => by
    unfold byMonthDay
    exact if_neg (by simp [notYearly, notMonthly])
  have days : ∀ entries c, r.byDay entries c =
      keepIf (fun c => entries.any (r.means · c.date)) c := fun entries c => by
    unfold byDay means
    simp only [dayScope_of_le rank, decide_true, Bool.or_true, Bool.true_or, Bool.and_true]
  unfold dateStages datePasses
  simp only [List.foldl_append, mem_stageOf_keepIf r.inListedMonth months,
    mem_stageOf_keepIf r.inListedWeek weeks, mem_stageOf_keepIf r.onListedYearDay yearDays,
    mem_stageOf_keepIf (fun d => placed (r.monthDaysFor root) d.dayOfMonth
      (daysInMonth d.year d.month)) (monthDays _),
    mem_stageOf_keepIf (fun d => (r.daysFor root).any (r.means · d)) (days _),
    List.mem_singleton, Bool.and_eq_true, and_assoc]

/-- The date of a unit of a day or less. -/
theorem mem_dateStages_unit_iff (rank : r.frequency.rank ≤ Frequency.daily.rank) (root : Civil)
    (inland : period.date.Inland) :
    c ∈ (r.dateStages root).foldl runStage [period] ↔ c = period ∧ r.TakesDate period.date := by
  obtain ⟨notYearly, notMonthly, notWeekly⟩ := frequency_ne_of_le rank
  have month : ¬ r.RepeatsMonthDay := fun ⟨_, _, hf⟩ =>
    hf.elim notMonthly fun yearly => notYearly yearly.1
  have week : ¬ r.RepeatsWeekday := fun ⟨_, hf⟩ =>
    hf.elim notWeekly fun yearly => notYearly yearly.1
  have means : ∀ e d, r.means e d = true ↔ e.day = d.weekday := fun e d => by
    unfold means
    simp only [dayScope_of_le rank, decide_true, Bool.or_true, Bool.true_or, Bool.and_true,
      decide_eq_true_eq]
  rw [mem_dateStages_limit_iff rank]
  refine and_congr_right fun own => ?_
  rw [own, datePasses_iff inland]
  simp only [means, month, week, false_imp_iff, and_true]
  exact ⟨fun ⟨meets, weekday⟩ => ⟨meets, weekday⟩, fun h => ⟨h.toMeetsDate, h.weekday⟩⟩

/-- **The candidates of a month, or of a unit of a day or less,** are, in ascending order, the civil times
    of it that satisfy every part of the rule. -/
theorem candidates_of_month_or_less (hskip : r.skip = .leaveOut) (hpos : r.parts.positions = [])
    (root period : Civil) (inland : period.date.Inland) :
    (r.civilCandidates root period false).Pairwise (fun a b => a.rank < b.rank) ∧
      (r.frequency = .monthly → r.parts.weekNumbers = [] → r.parts.yearDays = [] →
        ∀ x, x ∈ r.civilCandidates root period false ↔
          r.TakesInMonth root.date period.date x.date ∧ r.TakesClock period x) ∧
      (r.frequency.rank ≤ Frequency.daily.rank →
        ∀ x, x ∈ r.civilCandidates root period false ↔
          r.unitIndex x = r.unitIndex period ∧ r.TakesDate x.date ∧ r.TakesClock period x) := by
  refine ⟨(civilCandidates_spec hpos root period).1, fun monthly weeks yearDays x => ?_,
    fun rank x => ?_⟩
  · have rank : Frequency.daily.rank ≤ r.frequency.rank := by
      rw [monthly]
      decide
    exact mem_civilCandidates_iff_date hpos rank fun c =>
      mem_dateStages_month_iff monthly weeks yearDays hskip root inland
  · rw [(civilCandidates_spec hpos root period).2, unitIndex_eq_iff rank]
    simp only [mem_dateStages_unit_iff rank root inland]
    constructor
    · intro ⟨c, ⟨own, taken⟩, date, takes, same⟩
      rw [own] at date takes same
      exact ⟨⟨date, same⟩, date ▸ taken, takes⟩
    · intro ⟨⟨date, same⟩, taken, takes⟩
      exact ⟨period, ⟨rfl, date ▸ taken⟩, date, takes, same⟩

/-- The last Thursday of a month, on the hour. -/
def lastThursdays : Rule where
  frequency := .monthly
  parts := { RuleParts.none with days := [⟨-1, .thursday⟩], minutes := [0] }
  settings := .standard
  valid := by decide

/-- Every half hour of Thursdays in a week 9. -/
def halfHoursOfThursdays : Rule where
  frequency := .hourly
  parts := { RuleParts.none with
    weekNumbers := [9], days := [⟨-1, .thursday⟩], minutes := [0, 30] }
  settings := .standard
  valid := by decide

/-- The leap day of 2024 is the last Thursday of its month and lies in week 9. -/
theorem candidates_of_leapDay :
    let seed := Civil.ofDate ⟨739291, by decide, by decide⟩ 33600 false
    let period := Civil.ofDate ⟨739310, by decide, by decide⟩ 33600 false
    let hour := Civil.ofDate ⟨739310, by decide, by decide⟩ 32400 false
    let half := Civil.ofDate ⟨739310, by decide, by decide⟩ 34200 false
    seed.date.Inland ∧ hour ∈ lastThursdays.civilCandidates seed seed false ∧
      half ∈ halfHoursOfThursdays.civilCandidates seed period false := by
  intro seed period hour half
  have inland : seed.date.Inland := by decide
  refine ⟨inland, ?_, ?_⟩
  · refine ((candidates_of_month_or_less rfl rfl seed seed inland).2.1 rfl rfl rfl hour).mpr ⟨?_, ?_⟩
    · exact
        { month := fun listed => absurd rfl listed
          week := fun listed => absurd rfl listed
          yearDay := fun listed => absurd rfl listed
          monthDay := fun listed => absurd rfl listed
          year := by decide
          sameMonth := by decide
          weekday := fun _ => ⟨⟨-1, .thursday⟩, List.mem_singleton_self _, by decide, by decide⟩
          sameDay := fun _ none => nomatch none }
    · exact ⟨by decide, by decide, by decide, rfl⟩
  · refine ((candidates_of_month_or_less rfl rfl seed period (by decide)).2.2 (by decide) half).mpr
      ⟨by decide, ?_, ⟨by decide, by decide, by decide, rfl⟩⟩
    exact
      { month := fun listed => absurd rfl listed
        week := fun _ => ⟨9, List.mem_singleton_self _, half.date, by decide, by decide⟩
        yearDay := fun listed => absurd rfl listed
        monthDay := fun listed => absurd rfl listed
        weekday := fun _ => ⟨⟨-1, .thursday⟩, List.mem_singleton_self _, by decide⟩ }

end Rule

end Almanac
