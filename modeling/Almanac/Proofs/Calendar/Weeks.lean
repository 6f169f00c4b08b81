import Almanac.Proofs.Calendar.Spans

/-!
# A week belongs to the year of its fourth day

Weeks are counted from the first one with at least four of its days in the year. This file says the
same by the fourth day of a week (`Date.IsMidweek`), with no look at where weeks start:

* **the week-numbering year of a date is the year of that day**, and as many weeks of it lie before the
  week as there are whole weeks of the year before that day (`WeekNumber.weekOf?_eq`);
* the weeks behind it are told by the days of the year behind that day
  (`WeekNumber.weeksInYear?_eq`), so a week has a place in its year from either end (`Date.InWeek`);
* **a listed week is one of those places** (`Rule.inListedWeek_iff`).

Next to the first and the last year of the calendar a neighbouring year is missing, so all of this is
about dates two years inside it (`Date.Inland`).
-/

namespace Almanac

namespace Date

variable {weekStart : Weekday} {d e f : Date}

/-! ## 1. The fourth day -/

/-- A date with two years of the calendar on either side of its own, as all those from year 1 to 9998. -/
def Inland (d : Date) : Prop := firstYear + 2 ≤ d.year ∧ d.year + 2 ≤ lastYear

instance (d : Date) : Decidable d.Inland := inferInstanceAs (Decidable (_ ∧ _))

theorem Inland.lt_lastYear (h : d.Inland) : d.year < lastYear := by
  have := h.2
  omega

theorem Inland.of_year (h : d.Inland) (same : f.year = d.year) : f.Inland := by
  unfold Inland
  rw [same]
  exact h

/-- The fourth day of the week that a date lies in, in weeks that begin on a given day. -/
def IsMidweek (weekStart : Weekday) (d f : Date) : Prop :=
  f.day = d.day - d.weekday.after weekStart + 3

instance (weekStart : Weekday) (d f : Date) : Decidable (d.IsMidweek weekStart f) :=
  inferInstanceAs (Decidable (_ = _))

/-- The place of the week of a date among the weeks of the year that has its fourth day. -/
def InWeek (weekStart : Weekday) (place : Int) (d : Date) : Prop :=
  ∃ f, d.IsMidweek weekStart f ∧
    IsPlace place (f.dayOffset / 7) ((daysInYear f.year - f.ordinal) / 7)

theorem daysInYear_le (y : Int) : 365 ≤ daysInYear y ∧ daysInYear y ≤ 366 := by
  unfold daysInYear
  split
  · decide
  · decide

/-- Within two weeks of a date the year is that of the date or one next to it. -/
theorem year_of_near (near : (e.day - d.day).natAbs ≤ 14) :
    d.year - 1 ≤ e.year ∧ e.year ≤ d.year + 1 := by
  obtain ⟨low, high⟩ := d.year_bounds
  obtain ⟨low', high'⟩ := e.year_bounds
  have before := yearStart_succ (d.year - 1)
  have behind := yearStart_succ (d.year + 1)
  rw [Int.sub_add_cancel] at before
  have few := daysInYear_le (d.year - 1)
  have many := daysInYear_le (d.year + 1)
  constructor
  · refine Int.not_lt.mp fun lt => ?_
    have := yearStart_le_of_le (show e.year + 1 ≤ d.year - 1 by omega)
    omega
  · refine Int.not_lt.mp fun lt => ?_
    have := yearStart_le_of_le (show d.year + 1 + 1 ≤ e.year by omega)
    omega

/-- Inside the calendar every week has its fourth day, in the year of the date or next to it. -/
theorem exists_isMidweek (weekStart : Weekday) (h : d.Inland) :
    ∃ f, d.IsMidweek weekStart f ∧ d.year - 1 ≤ f.year ∧ f.year ≤ d.year + 1 := by
  obtain ⟨low, high⟩ := d.year_bounds
  have before := yearStart_succ (d.year - 1)
  have early := yearStart_le_of_le (show firstYear ≤ d.year - 1 by have := h.1; omega)
  have late := yearStart_le_of_le (show d.year + 1 + 1 ≤ lastYear + 1 by have := h.2; omega)
  rw [yearStart_firstYear] at early
  rw [yearStart_lastYear_succ, yearStart_succ] at late
  rw [Int.sub_add_cancel] at before
  have few := daysInYear_le (d.year - 1)
  have many := daysInYear_le (d.year + 1)
  have small := Weekday.after_lt d.weekday weekStart
  have inside : firstDay ≤ d.day - d.weekday.after weekStart + 3 ∧
      d.day - d.weekday.after weekStart + 3 ≤ lastDay := by omega
  obtain ⟨f, mid⟩ : ∃ f, d.IsMidweek weekStart f := ⟨⟨_, inside.1, inside.2⟩, rfl⟩
  refine ⟨f, mid, year_of_near ?_⟩
  unfold IsMidweek at mid
  omega

end Date

namespace WeekNumber

variable {weekStart : Weekday} {d f : Date} {y : Int}

/-! ## 2. Week numbers -/

/-- Week 1 of a year begins with the week of the fourth of January. -/
theorem firstWeekStart?_eq (weekStart : Weekday) (low : firstYear < y) (high : y ≤ lastYear) :
    ∃ s, firstWeekStart? y weekStart = some s ∧
      s.day = yearStart y + 3 - (yearStart y + 8 - weekStart.index) % 7 := by
  obtain ⟨newYear, hn⟩ := Option.isSome_iff_exists.mp (Date.ofFields?_isSome (Int.le_of_lt low) high
    (m := 1) (i := 1) (by decide) ⟨by decide, one_le_daysInMonth (by decide) (by decide)⟩)
  have first : newYear.day = yearStart y := by
    rw [Date.day_of_ofFields? hn]
    exact Int.add_zero _
  have early := yearStart_le_of_le (show firstYear + 1 ≤ y by omega)
  have late := yearStart_le_of_le high
  rw [yearStart_succ, yearStart_firstYear] at early
  have last : yearStart lastYear = lastDay - 364 := by decide
  have few := Date.daysInYear_le firstYear
  have lead := newYear.after_weekday weekStart
  have index := weekStart.index_lt
  unfold firstWeekStart?
  simp only [hn, Option.bind_eq_bind, Option.bind_some]
  split
  · have inside : firstDay ≤ newYear.day + -(newYear.weekday.after weekStart : Int) ∧
        newYear.day + -(newYear.weekday.after weekStart : Int) ≤ lastDay := by omega
    refine ⟨_, dif_pos inside, ?_⟩
    show newYear.day + -(newYear.weekday.after weekStart : Int) = _
    omega
  · have inside : firstDay ≤ newYear.day + (7 - newYear.weekday.after weekStart : Nat) ∧
        newYear.day + (7 - newYear.weekday.after weekStart : Nat) ≤ lastDay := by omega
    refine ⟨_, dif_pos inside, ?_⟩
    show newYear.day + (7 - newYear.weekday.after weekStart : Nat) = _
    omega

/-- **The week-numbering year is the year of the fourth day**, and the number of the week counts the
    weeks of that year up to that day. -/
theorem weekOf?_eq (inland : d.Inland) (mid : d.IsMidweek weekStart f) :
    weekOf? d weekStart = some (f.year, f.dayOffset / 7 + 1) := by
  obtain ⟨low, high⟩ := inland
  obtain ⟨previous, hp, startP⟩ := firstWeekStart?_eq (y := d.year - 1) weekStart (by omega) (by omega)
  obtain ⟨start, hs, startS⟩ := firstWeekStart?_eq (y := d.year) weekStart (by omega) (by omega)
  obtain ⟨next, hn, startN⟩ := firstWeekStart?_eq (y := d.year + 1) weekStart (by omega) (by omega)
  have lead := d.after_weekday weekStart
  have index := weekStart.index_lt
  unfold Date.IsMidweek at mid
  obtain ⟨own, own'⟩ := d.year_bounds
  have before := yearStart_succ (d.year - 1)
  have behind := yearStart_succ (d.year + 1)
  rw [Int.sub_add_cancel] at before
  have few := Date.daysInYear_le (d.year - 1)
  have many := Date.daysInYear_le (d.year + 1)
  have offset := f.dayOffset_eq
  unfold weekOf?
  simp only [hp, hs, hn, Option.bind_eq_bind, Option.bind_some]
  split
  · have year : f.year = d.year - 1 := Date.year_eq_of_bounds (by omega) (by omega)
    rw [year] at offset ⊢
    refine congrArg some (Prod.ext rfl ?_)
    dsimp only
    omega
  · split
    · have year : f.year = d.year + 1 := Date.year_eq_of_bounds (by omega) (by omega)
      rw [year] at offset ⊢
      refine congrArg some (Prod.ext rfl ?_)
      dsimp only
      omega
    · have whole := yearStart_succ d.year
      have year : f.year = d.year := Date.year_eq_of_bounds (by omega) (by omega)
      rw [year] at offset ⊢
      refine congrArg some (Prod.ext rfl ?_)
      dsimp only
      omega

/-- **The weeks of a year are those before a week of it, this week, and those behind it.** -/
theorem weeksInYear?_eq (mid : d.IsMidweek weekStart f) (low : firstYear < f.year)
    (high : f.year < lastYear) : weeksInYear? f.year weekStart =
      some (f.dayOffset / 7 + 1 + (daysInYear f.year - f.ordinal) / 7) := by
  obtain ⟨start, hs, startS⟩ := firstWeekStart?_eq (y := f.year) weekStart low (by omega)
  obtain ⟨next, hn, startN⟩ := firstWeekStart?_eq (y := f.year + 1) weekStart (by omega) (by omega)
  have lead := d.after_weekday weekStart
  have index := weekStart.index_lt
  unfold Date.IsMidweek at mid
  have whole := yearStart_succ f.year
  have offset := f.dayOffset_eq
  have few := f.dayOffset_lt
  have ordinal : f.ordinal = f.dayOffset + 1 := rfl
  unfold weeksInYear?
  simp only [hs, hn, Option.bind_eq_bind, Option.bind_some]
  refine congrArg some ?_
  omega

end WeekNumber

/-- **A date is in a listed week when one of the places is that of its week**, in the year that has the
    fourth day of the week. -/
theorem Rule.inListedWeek_iff {r : Rule} {d : Date} (inland : d.Inland) :
    r.inListedWeek d = true ↔ ∃ place ∈ r.parts.weekNumbers, d.InWeek r.weekStart place := by
  obtain ⟨f, mid, low, high⟩ := Date.exists_isMidweek r.weekStart inland
  obtain ⟨first, last⟩ := inland
  have listed : r.inListedWeek d = placed r.parts.weekNumbers (f.dayOffset / 7 + 1)
      (f.dayOffset / 7 + 1 + (daysInYear f.year - f.ordinal) / 7) := by
    unfold inListedWeek
    simp only [WeekNumber.weekOf?_eq ⟨first, last⟩ mid, Option.bind_eq_bind, Option.bind_some,
      WeekNumber.weeksInYear?_eq mid (show firstYear < f.year by omega)
        (show f.year < lastYear by omega), Option.pure_def, Option.getD_some]
  have same : ∀ g, d.IsMidweek r.weekStart g ↔ g = f := by
    intro g
    constructor
    · intro own
      exact Date.ext (own.trans mid.symm)
    · intro own
      rwa [own]
  rw [listed, placed_iff_isPlace (Nat.succ_pos _) (Nat.le_add_right _ _)]
  unfold Date.InWeek
  simp only [same, exists_eq_left, Nat.add_sub_cancel_left]
  rfl

end Almanac
