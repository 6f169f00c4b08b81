import Almanac.Proofs.Calendar.Weeks

/-!
# Weeks follow each other

The number of a week is told by its fourth day (`WeekNumber.weekOf?_eq`). This file fixes what that
says of the weeks in a row, for weeks that begin on any day:

* the seven days of a week have one fourth day, and those of the next week the one seven days later
  (`Date.IsMidweek.of_near`, `Date.IsMidweek.day_eq`);
* a year has 52 or 53 weeks (`WeekNumber.weeks_of_year`), and the last of them is the one whose fourth
  day has no day of the year a week after it (`WeekNumber.weekOf?_next`);
* so **weeks are counted on without gap or overlap**, from the first week of a year to its last, and
  then from 1 (`WeekNumber.weeks_count_on`).
-/

namespace Almanac

namespace Date

variable {weekStart : Weekday} {d e f g : Date}

/-! ## 1. Fourth days -/

/-- The seven days of a week have one fourth day. -/
theorem IsMidweek.of_near (mid : d.IsMidweek weekStart f) (low : f.day - 3 ≤ e.day)
    (high : e.day ≤ f.day + 3) : e.IsMidweek weekStart f := by
  have lead := d.after_weekday weekStart
  have lead' := e.after_weekday weekStart
  unfold IsMidweek at mid ⊢
  omega

/-- The fourth day of the next week comes seven days later. -/
theorem IsMidweek.day_eq (mid : d.IsMidweek weekStart f) (mid' : e.IsMidweek weekStart g)
    (low : f.day + 4 ≤ e.day) (high : e.day ≤ f.day + 10) : g.day = f.day + 7 := by
  have lead := d.after_weekday weekStart
  have lead' := e.after_weekday weekStart
  unfold IsMidweek at mid mid'
  omega

/-- A week after a day of the year is a day of the same year, or one of the first seven of the next. -/
theorem year_of_week_later (later : g.day = f.day + 7) :
    (f.ordinal + 7 ≤ daysInYear f.year ∧ g.year = f.year ∧ g.dayOffset = f.dayOffset + 7) ∨
      (daysInYear f.year < f.ordinal + 7 ∧ g.year = f.year + 1 ∧ g.dayOffset < 7) := by
  have offset := f.dayOffset_eq
  have few := f.dayOffset_lt
  have offset' := g.dayOffset_eq
  have ordinal : f.ordinal = f.dayOffset + 1 := rfl
  have whole := yearStart_succ f.year
  have many := daysInYear_le (f.year + 1)
  by_cases room : f.ordinal + 7 ≤ daysInYear f.year
  · have year : g.year = f.year := year_eq_of_bounds (by omega) (by omega)
    rw [year] at offset'
    exact .inl ⟨room, year, by omega⟩
  · have year : g.year = f.year + 1 := year_eq_of_bounds (by omega) (by omega)
    rw [year] at offset'
    exact .inr ⟨by omega, year, by omega⟩

end Date

namespace WeekNumber

variable {weekStart : Weekday} {d e f : Date}

/-! ## 2. Numbers of weeks -/

/-- **A year has 52 or 53 weeks**, wherever a week stands in it. -/
theorem weeks_of_year (f : Date) :
    f.dayOffset / 7 + 1 + (daysInYear f.year - f.ordinal) / 7 = 52 ∨
      f.dayOffset / 7 + 1 + (daysInYear f.year - f.ordinal) / 7 = 53 := by
  have few := f.dayOffset_lt
  have days := Date.daysInYear_le f.year
  have ordinal : f.ordinal = f.dayOffset + 1 := rfl
  omega

/-- The number of a week counts the weeks since the first one of the year. -/
theorem week_eq_of_firstWeekStart? {start : Date} (mid : d.IsMidweek weekStart f)
    (low : firstYear < f.year) (first : firstWeekStart? f.year weekStart = some start) :
    ((f.dayOffset / 7 + 1 : Nat) : Int) = (d.day - start.day) / 7 + 1 := by
  obtain ⟨s, hs, own⟩ := firstWeekStart?_eq weekStart low f.year_within.2
  rw [first] at hs
  cases hs
  have lead := d.after_weekday weekStart
  have index := weekStart.index_lt
  have offset := f.dayOffset_eq
  unfold Date.IsMidweek at mid
  omega

/-- **The next week has the next number**, or 1 if no fourth day of a week is left in the year. -/
theorem weekOf?_next (mid : d.IsMidweek weekStart f) (inland : e.Inland) (low : f.day + 4 ≤ e.day)
    (high : e.day ≤ f.day + 10) : weekOf? e weekStart =
      some (if (daysInYear f.year - f.ordinal) / 7 = 0 then (f.year + 1, 1)
        else (f.year, f.dayOffset / 7 + 1 + 1)) := by
  obtain ⟨g, mid', -⟩ := Date.exists_isMidweek weekStart inland
  have few := f.dayOffset_lt
  rw [weekOf?_eq inland mid']
  obtain ⟨room, year, offset⟩ | ⟨past, year, offset⟩ :=
    Date.year_of_week_later (mid.day_eq mid' low high)
  · have behind : ¬ (daysInYear f.year - f.ordinal) / 7 = 0 := by omega
    rw [if_neg behind, year, offset, Nat.add_div_right _ (by decide)]
  · have none : (daysInYear f.year - f.ordinal) / 7 = 0 := by omega
    rw [if_pos none, year, Nat.div_eq_of_lt offset]

/-! ## 3. Weeks in a row -/

/-- **Weeks are counted on without gap or overlap**, whatever day they begin on. Of a date three years
    inside the calendar, as are those of the years 1 to 9998, the week-numbering year is the year of the
    fourth day of its week, and its week counts the weeks since the first one of that year, which has
    52 or 53 of them. All seven days of the week agree on both. Those of the next week have the next
    number, or, after the last week of the year and only then, number 1 of the next year. -/
theorem weeks_count_on (weekStart : Weekday) {d : Date} (low : firstYear + 3 ≤ d.year)
    (high : d.year + 3 ≤ lastYear) :
    ∃ f start week weeks, d.IsMidweek weekStart f ∧
      firstWeekStart? f.year weekStart = some start ∧ weeksInYear? f.year weekStart = some weeks ∧
      weekOf? d weekStart = some (f.year, week) ∧ (week : Int) = (d.day - start.day) / 7 + 1 ∧
      1 ≤ week ∧ week ≤ weeks ∧ (weeks = 52 ∨ weeks = 53) ∧
      (∀ e : Date, f.day - 3 ≤ e.day → e.day ≤ f.day + 3 →
        weekOf? e weekStart = some (f.year, week)) ∧
      ∀ e : Date, f.day + 4 ≤ e.day → e.day ≤ f.day + 10 →
        weekOf? e weekStart = some (if week = weeks then (f.year + 1, 1) else (f.year, week + 1)) := by
  have inland : d.Inland := ⟨by omega, by omega⟩
  obtain ⟨f, mid, early, late⟩ := Date.exists_isMidweek weekStart inland
  obtain ⟨start, first, -⟩ := firstWeekStart?_eq (y := f.year) weekStart (by omega) (by omega)
  have small := Weekday.after_lt d.weekday weekStart
  have fourth : f.day = d.day - d.weekday.after weekStart + 3 := mid
  have near : ∀ e : Date, f.day - 3 ≤ e.day → e.day ≤ f.day + 10 → e.Inland := fun e from' to' => by
    obtain ⟨before, behind⟩ := Date.year_of_near (d := d) (e := e) (by omega)
    exact ⟨by omega, by omega⟩
  refine ⟨f, start, f.dayOffset / 7 + 1, _, mid, first, weeksInYear?_eq mid (by omega) (by omega),
    weekOf?_eq inland mid, week_eq_of_firstWeekStart? mid (by omega) first, Nat.succ_pos _,
    Nat.le_add_right _ _, weeks_of_year f, fun e from' to' => ?_, fun e from' to' => ?_⟩
  · exact weekOf?_eq (near e from' (by omega)) (mid.of_near from' to')
  · rw [weekOf?_next mid (near e (by omega) to') from' to']
    simp only [Nat.left_eq_add]

/-- The first of January 2021 is a Friday. Where weeks begin on Mondays it lies in week 53 of 2020, from
    28 December to 3 January, and the week after that is week 1 of 2021. -/
theorem weeks_count_on_from_2020 :
    (firstYear + 3 ≤ (Date.nearest 738156).year ∧ (Date.nearest 738156).year + 3 ≤ lastYear) ∧
      (∀ e : Date, 738152 ≤ e.day → e.day ≤ 738158 → weekOf? e .monday = some (2020, 53)) ∧
      ∀ e : Date, 738159 ≤ e.day → e.day ≤ 738165 → weekOf? e .monday = some (2021, 1) := by
  have bounds : firstYear + 3 ≤ (Date.nearest 738156).year ∧
      (Date.nearest 738156).year + 3 ≤ lastYear := by decide
  obtain ⟨f, start, week, weeks, mid, -, whole, own, -, -, -, -, same, next⟩ :=
    weeks_count_on .monday bounds.1 bounds.2
  have fourth : f.day = 738155 := mid.trans (by decide)
  have number : weekOf? (Date.nearest 738156) .monday = some (2020, 53) := by decide
  rw [number] at own
  obtain ⟨year, last⟩ := Prod.mk.inj (Option.some.inj own)
  have weeks' : weeksInYear? 2020 .monday = some 53 := by decide
  rw [← year, weeks'] at whole
  rw [← year, ← last] at same next
  rw [if_pos (Option.some.inj whole)] at next
  exact ⟨bounds, fun e from' to' => same e (by omega) (by omega),
    fun e from' to' => next e (by omega) (by omega)⟩

end WeekNumber

end Almanac
