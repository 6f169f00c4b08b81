import Almanac.Calendar.Date
import Mathlib.Algebra.GroupWithZero.Nat

/-!
# Dates and their fields

A date is a day number, and its fields are read off that number. This file shows that the reading
loses nothing:

* the year of a date is the only year whose days its number lies among (`year_eq_of_bounds`);
* the months of a year begin one month's days apart (`daysBeforeMonth_succ`), and month and day of
  the month are the only ones that give the day of the year (`month_eq_of_offset_eq`);
* **`Date.ofFields?` and the fields are inverse** (`ofFields?_eq_some_iff`), and so are
  `Date.ofOrdinal?` and year and ordinal (`year_of_ofOrdinal?`);
* the month index counts the months of all years, and moves with the day number
  (`monthIndex_le_of_day_le`) and with `Date.addMonths?` (`monthIndex_of_addMonths?`).
-/

namespace Almanac

/-! ## 1. Years -/

/-- Later years begin later, by at least the days in between. -/
theorem yearStart_add_daysInYear_le {y z : Int} (h : y < z) :
    yearStart y + daysInYear y ≤ yearStart z := by
  rw [← yearStart_succ]
  unfold yearStart
  omega

theorem yearStart_le_of_le {y z : Int} (h : y ≤ z) : yearStart y ≤ yearStart z := by
  unfold yearStart
  omega

/-- Only one year has a given day among its days. -/
theorem Date.year_eq_of_bounds {d : Date} {y : Int} (low : yearStart y ≤ d.day)
    (high : d.day < yearStart y + daysInYear y) : d.year = y := by
  obtain ⟨l, h⟩ := d.year_bounds
  rw [yearStart_succ] at h
  rcases Int.lt_trichotomy d.year y with hy | hy | hy
  · have := yearStart_add_daysInYear_le hy
    omega
  · exact hy
  · have := yearStart_add_daysInYear_le hy
    omega

theorem Date.year_le_of_day_le {d e : Date} (h : d.day ≤ e.day) : d.year ≤ e.year := by
  refine Int.not_lt.mp fun hy => ?_
  have := yearStart_add_daysInYear_le hy
  have := d.year_bounds.1
  have := e.year_bounds.2
  rw [yearStart_succ] at this
  omega

/-- The days of the year that lie before a date. -/
theorem Date.dayOffset_eq (d : Date) : (d.dayOffset : Int) = d.day - yearStart d.year := by
  have := d.year_bounds.1
  unfold dayOffset
  omega

theorem Date.dayOffset_lt (d : Date) : d.dayOffset < daysInYear d.year := by
  have := d.dayOffset_eq
  have := d.year_bounds.2
  rw [yearStart_succ] at this
  omega

/-- The calendar holds every day of its years, and of no others. -/
theorem Date.year_within (d : Date) : firstYear ≤ d.year ∧ d.year ≤ lastYear := by
  have low := d.year_bounds
  have := d.first_le
  have := d.le_last
  have start := yearStart_firstYear
  have stop := yearStart_lastYear_succ
  constructor
  · refine Int.not_lt.mp fun h => ?_
    have := yearStart_le_of_le (show d.year + 1 ≤ firstYear by omega)
    omega
  · refine Int.not_lt.mp fun h => ?_
    have := yearStart_le_of_le (show lastYear + 1 ≤ d.year by omega)
    omega

/-- A day of a year of the calendar is in the calendar. -/
theorem Date.ofDay?_isSome_of_year {y : Int} {offset : Nat} (low : firstYear ≤ y)
    (high : y ≤ lastYear) (h : offset < daysInYear y) :
    (Date.ofDay? (yearStart y + offset)).isSome := by
  have first := yearStart_le_of_le low
  have last := yearStart_le_of_le (show y + 1 ≤ lastYear + 1 by omega)
  rw [yearStart_succ] at last
  rw [yearStart_firstYear] at first
  rw [yearStart_lastYear_succ] at last
  have within : firstDay ≤ yearStart y + offset ∧ yearStart y + offset ≤ lastDay := by omega
  simp only [ofDay?, dif_pos within, Option.isSome_some]

/-- A day of a year has that year, and that place in it. -/
theorem Date.year_of_ofDay? {y : Int} {offset : Nat} {d : Date} (h : offset < daysInYear y)
    (hd : Date.ofDay? (yearStart y + offset) = some d) : d.year = y ∧ d.dayOffset = offset := by
  have day := Date.ofDay?_eq_some_iff.mp hd
  have year : d.year = y := Date.year_eq_of_bounds (by omega) (by omega)
  have := d.dayOffset_eq
  rw [year] at this
  exact ⟨year, by omega⟩

theorem Date.year_of_ofOrdinal? {y : Int} {ordinal : Nat} {d : Date}
    (h : Date.ofOrdinal? y ordinal = some d) : d.year = y ∧ d.ordinal = ordinal := by
  unfold Date.ofOrdinal? at h
  split at h
  · rename_i within
    obtain ⟨year, offset⟩ := Date.year_of_ofDay? (by omega) h
    exact ⟨year, by unfold Date.ordinal; omega⟩
  · cases h

/-! ## 2. Months of a year -/

/-- Consecutive months begin a month's days apart. -/
theorem daysBeforeMonth_succ (y : Int) {m : Nat} (low : 1 ≤ m) (high : m ≤ 12) :
    daysBeforeMonth y (m + 1) = daysBeforeMonth y m + daysInMonth y m := by
  unfold daysBeforeMonth daysInMonth
  generalize isLeapYear y = leap
  have key : ∀ leap : Bool, ∀ i : Fin 12,
      ((monthLengths leap).take (i.val + 1 + 1 - 1)).foldl (· + ·) 0 =
        ((monthLengths leap).take (i.val + 1 - 1)).foldl (· + ·) 0 +
          if i.val + 1 = 0 then 0 else (monthLengths leap)[i.val + 1 - 1]?.getD 0 := by decide
  have := key leap ⟨m - 1, by omega⟩
  simp only [show m - 1 + 1 = m by omega] at this
  exact this

theorem daysBeforeMonth_thirteen (y : Int) : daysBeforeMonth y 13 = daysInYear y := by
  unfold daysBeforeMonth daysInYear
  cases isLeapYear y <;> rfl

/-- Later months begin later, by at least the days in between. -/
theorem daysBeforeMonth_add_le {y : Int} {m n : Nat} (low : 1 ≤ m) (h : m < n) (high : n ≤ 13) :
    daysBeforeMonth y m + daysInMonth y m ≤ daysBeforeMonth y n := by
  induction n with
  | zero => omega
  | succ n ih =>
    by_cases hn : n = m
    · have next := daysBeforeMonth_succ y low (by omega : m ≤ 12)
      rw [hn]
      omega
    · have := ih (by omega) (by omega)
      rw [daysBeforeMonth_succ y (by omega) (by omega)]
      omega

/-- The days of a month are days of its year. -/
theorem daysBeforeMonth_add_le_daysInYear {y : Int} {m : Nat} (low : 1 ≤ m) (high : m ≤ 12) :
    daysBeforeMonth y m + daysInMonth y m ≤ daysInYear y := by
  rw [← daysBeforeMonth_thirteen]
  exact daysBeforeMonth_add_le low (by omega) (by omega)

theorem twentyEight_le_daysInMonth {y : Int} {m : Nat} (low : 1 ≤ m) (high : m ≤ 12) :
    28 ≤ daysInMonth y m := by
  unfold daysInMonth
  generalize isLeapYear y = leap
  have key : ∀ leap : Bool, ∀ i : Fin 12,
      28 ≤ if i.val + 1 = 0 then 0 else (monthLengths leap)[i.val + 1 - 1]?.getD 0 := by decide
  have := key leap ⟨m - 1, by omega⟩
  simp only [show m - 1 + 1 = m by omega] at this
  exact this

theorem one_le_daysInMonth {y : Int} {m : Nat} (low : 1 ≤ m) (high : m ≤ 12) :
    1 ≤ daysInMonth y m :=
  Nat.le_trans (by decide) (twentyEight_le_daysInMonth low high)

/-- Only one month and day of it are a given day of the year. -/
theorem month_eq_of_offset_eq {y : Int} {m n i j : Nat} (hm : 1 ≤ m ∧ m ≤ 12) (hn : 1 ≤ n ∧ n ≤ 12)
    (hi : 1 ≤ i ∧ i ≤ daysInMonth y m) (hj : 1 ≤ j ∧ j ≤ daysInMonth y n)
    (h : daysBeforeMonth y m + (i - 1) = daysBeforeMonth y n + (j - 1)) : m = n ∧ i = j := by
  rcases Nat.lt_trichotomy m n with hmn | hmn | hmn
  · have := daysBeforeMonth_add_le (y := y) hm.1 hmn (by omega)
    omega
  · subst hmn
    exact ⟨rfl, by omega⟩
  · have := daysBeforeMonth_add_le (y := y) hn.1 hmn (by omega)
    omega

/-- Where the search through the months stops: the month's place in the run of lengths, the day
    within its length, and the lengths before it made up for. -/
theorem monthAndDay_spec (lengths : List Nat) (month offset : Nat) (h : offset < lengths.sum) :
    ∃ i length, lengths[i]? = some length ∧
      (monthAndDay lengths month offset).1 = month + i ∧
      1 ≤ (monthAndDay lengths month offset).2 ∧
      (monthAndDay lengths month offset).2 ≤ length ∧
      (lengths.take i).sum + ((monthAndDay lengths month offset).2 - 1) = offset := by
  induction lengths generalizing month offset with
  | nil => simp at h
  | cons length lengths ih =>
    rw [List.sum_cons] at h
    unfold monthAndDay
    split
    · exact ⟨0, length, rfl, rfl, by simp, by simp; omega, by simp⟩
    · obtain ⟨i, length', hi, h1, h2, h3, h4⟩ := ih (month + 1) (offset - length) (by omega)
      refine ⟨i + 1, length', by simpa using hi, by rw [h1]; omega, h2, h3, ?_⟩
      rw [List.take_succ_cons, List.sum_cons]
      omega

theorem sum_monthLengths (y : Int) : (monthLengths (isLeapYear y)).sum = daysInYear y := by
  unfold daysInYear
  cases isLeapYear y <;> rfl

/-- **Month and day of the month lie in their ranges, and give the day of the year.** -/
theorem Date.fields_spec (d : Date) :
    1 ≤ d.month ∧ d.month ≤ 12 ∧ 1 ≤ d.dayOfMonth ∧ d.dayOfMonth ≤ daysInMonth d.year d.month ∧
      daysBeforeMonth d.year d.month + (d.dayOfMonth - 1) = d.dayOffset := by
  have within : d.dayOffset < (monthLengths (isLeapYear d.year)).sum := by
    rw [sum_monthLengths]
    exact d.dayOffset_lt
  obtain ⟨i, length, hi, h1, h2, h3, h4⟩ := monthAndDay_spec _ 1 _ within
  have hlt : i < 12 := (List.getElem?_eq_some_iff.mp hi).1
  have month : d.month = i + 1 := by
    unfold Date.month fields
    omega
  have days : daysInMonth d.year d.month = length := by
    unfold daysInMonth
    rw [month, if_neg (by omega), Nat.add_sub_cancel, hi, Option.getD_some]
  have before : daysBeforeMonth d.year d.month = ((monthLengths (isLeapYear d.year)).take i).sum := by
    unfold daysBeforeMonth
    rw [month, Nat.add_sub_cancel, List.sum_eq_foldl]
  refine ⟨by omega, by omega, h2, ?_, ?_⟩
  · rw [days]
    exact h3
  · rw [before]
    exact h4

/-! ## 3. Dates of a year, month and day -/

/-- **A date is the one with its year, month and day of the month, and no other date has them.** -/
theorem Date.ofFields?_eq_some_iff {y : Int} {m i : Nat} {d : Date} :
    Date.ofFields? y m i = some d ↔ d.year = y ∧ d.month = m ∧ d.dayOfMonth = i := by
  obtain ⟨m1, m2, i1, i2, offset⟩ := d.fields_spec
  constructor
  · intro h
    unfold Date.ofFields? at h
    split at h
    · rename_i valid
      obtain ⟨v1, v2, v3, v4⟩ := valid
      have := daysBeforeMonth_add_le_daysInYear (y := y) v1 v2
      obtain ⟨year, place⟩ := Date.year_of_ofDay? (by omega) h
      rw [year] at i2 offset
      obtain ⟨e1, e2⟩ := month_eq_of_offset_eq (y := y) ⟨m1, m2⟩ ⟨v1, v2⟩ ⟨i1, i2⟩ ⟨v3, v4⟩ (by omega)
      exact ⟨year, e1, e2⟩
    · cases h
  · rintro ⟨rfl, rfl, rfl⟩
    unfold Date.ofFields?
    rw [if_pos ⟨m1, m2, i1, i2⟩, Date.ofDay?_eq_some_iff, offset]
    have := d.dayOffset_eq
    omega

/-- Every year of the calendar has every day of its months. -/
theorem Date.ofFields?_isSome {y : Int} {m i : Nat} (low : firstYear ≤ y) (high : y ≤ lastYear)
    (hm : 1 ≤ m ∧ m ≤ 12) (hi : 1 ≤ i ∧ i ≤ daysInMonth y m) : (Date.ofFields? y m i).isSome := by
  have := daysBeforeMonth_add_le_daysInYear (y := y) hm.1 hm.2
  unfold Date.ofFields?
  rw [if_pos ⟨hm.1, hm.2, hi.1, hi.2⟩]
  exact Date.ofDay?_isSome_of_year low high (by omega)

/-! ## 4. Month indices -/

theorem Date.year_eq_monthIndex_div (d : Date) : d.year = d.monthIndex / 12 := by
  have := d.fields_spec
  unfold monthIndex
  omega

theorem Date.month_eq_monthIndex_mod (d : Date) : (d.month : Int) = d.monthIndex % 12 + 1 := by
  have := d.fields_spec
  unfold monthIndex
  omega

/-- Dates of one year and month have one month index. -/
theorem Date.monthIndex_eq {d e : Date} (year : d.year = e.year) (month : d.month = e.month) :
    d.monthIndex = e.monthIndex := by
  unfold monthIndex
  rw [year, month]

/-- **The month index does not fall as dates go on.** -/
theorem Date.monthIndex_le_of_day_le {d e : Date} (h : d.day ≤ e.day) :
    d.monthIndex ≤ e.monthIndex := by
  have years := Date.year_le_of_day_le h
  obtain ⟨d1, d2, d3, d4, d5⟩ := d.fields_spec
  obtain ⟨e1, e2, e3, e4, e5⟩ := e.fields_spec
  have dd := d.dayOffset_eq
  have ee := e.dayOffset_eq
  by_cases hy : d.year = e.year
  · have : d.month ≤ e.month := by
      refine Nat.not_lt.mp fun hm => ?_
      have := daysBeforeMonth_add_le (y := d.year) e1 hm (by omega)
      rw [hy] at dd d5 this
      omega
    unfold monthIndex
    omega
  · unfold monthIndex
    omega

theorem Date.day_lt_of_monthIndex_lt {d e : Date} (h : d.monthIndex < e.monthIndex) :
    d.day < e.day := by
  refine Int.not_le.mp fun hd => ?_
  have := Date.monthIndex_le_of_day_le hd
  omega

/-- **A step of so many months raises the month index by as many.** -/
theorem Date.monthIndex_of_addMonths? {d e : Date} {months : Int}
    (h : d.addMonths? months = some e) : e.monthIndex = d.monthIndex + months := by
  obtain ⟨year, month, -⟩ := Date.ofFields?_eq_some_iff.mp h
  unfold monthIndex at *
  omega

/-- A step of months keeps the day of the month, unless the month is too short for it. -/
theorem Date.dayOfMonth_of_addMonths? {d e : Date} {months : Int}
    (h : d.addMonths? months = some e) :
    e.dayOfMonth = min d.dayOfMonth (daysInMonth e.year e.month) := by
  obtain ⟨year, month, day⟩ := Date.ofFields?_eq_some_iff.mp h
  rw [day, year, month]

/-- A step of months that stays within the years of the calendar has a date. -/
theorem Date.addMonths?_isSome {d : Date} {months : Int}
    (low : firstYear ≤ (d.monthIndex + months) / 12)
    (high : (d.monthIndex + months) / 12 ≤ lastYear) : (d.addMonths? months).isSome := by
  have hm : 1 ≤ ((d.monthIndex + months) % 12).toNat + 1 ∧
      ((d.monthIndex + months) % 12).toNat + 1 ≤ 12 := by omega
  have day := d.fields_spec
  have length := one_le_daysInMonth (y := (d.monthIndex + months) / 12) hm.1 hm.2
  exact Date.ofFields?_isSome low high hm (by omega)

@[simp] theorem Date.addMonths?_zero (d : Date) : d.addMonths? 0 = some d := by
  obtain ⟨m1, m2, i1, i2, -⟩ := d.fields_spec
  have year := d.year_eq_monthIndex_div
  have month := d.month_eq_monthIndex_mod
  have hy : (d.monthIndex + 0) / 12 = d.year := by omega
  have hm : ((d.monthIndex + 0) % 12).toNat + 1 = d.month := by omega
  show Date.ofFields? ((d.monthIndex + 0) / 12) (((d.monthIndex + 0) % 12).toNat + 1) _ = some d
  rw [Date.ofFields?_eq_some_iff, hy, hm]
  exact ⟨rfl, rfl, by omega⟩

/-! ## 5. Spans of dates -/

/-- A listed date of a span lies in the span. -/
theorem Date.mem_spaced {step : Nat} {first last d : Date} (hstep : 0 < step)
    (h : d ∈ Date.spaced step first last) : first.day ≤ d.day ∧ d.day ≤ last.day := by
  unfold Date.spaced at h
  obtain ⟨i, hi, hd⟩ := List.mem_filterMap.mp h
  obtain ⟨_, -, hd⟩ := Option.bind_eq_some_iff.mp hd
  have day := Date.ofDay?_eq_some_iff.mp hd
  have hlt := List.mem_range.mp hi
  have : (step : Int) * i ≤ last.day - first.day := by
    have low : (i : Int) ≤ (last.day - first.day) / step := by omega
    have := Int.mul_le_mul_of_nonneg_left low (Int.natCast_nonneg step)
    exact Int.le_trans this (Int.mul_ediv_self_le (by omega))
  have : 0 ≤ (step : Int) * i := Int.mul_nonneg (by omega) (by omega)
  rw [Int.natCast_mul] at day
  omega

/-- The dates between the bounds of a month are of that month. -/
theorem Date.monthIndex_of_monthBounds? {d first last e : Date}
    (h : d.monthBounds? = some (first, last)) (low : first.day ≤ e.day) (high : e.day ≤ last.day) :
    e.monthIndex = d.monthIndex := by
  simp only [monthBounds?, Option.bind_eq_bind, Option.bind_eq_some_iff, Option.pure_def,
    Option.some.injEq, Prod.mk.injEq] at h
  obtain ⟨_, hf, _, hl, rfl, rfl⟩ := h
  obtain ⟨fy, fm, -⟩ := Date.ofFields?_eq_some_iff.mp hf
  obtain ⟨ly, lm, -⟩ := Date.ofFields?_eq_some_iff.mp hl
  have lo := Date.monthIndex_le_of_day_le low
  have hi := Date.monthIndex_le_of_day_le high
  rw [Date.monthIndex_eq fy fm] at lo
  rw [Date.monthIndex_eq ly lm] at hi
  omega

/-- The dates between the bounds of a year are of that year. -/
theorem Date.year_of_yearBounds? {d first last e : Date} (h : d.yearBounds? = some (first, last))
    (low : first.day ≤ e.day) (high : e.day ≤ last.day) : e.year = d.year := by
  simp only [yearBounds?, Option.bind_eq_bind, Option.bind_eq_some_iff, Option.pure_def,
    Option.some.injEq, Prod.mk.injEq] at h
  obtain ⟨_, hf, _, hl, rfl, rfl⟩ := h
  have lo := Date.year_le_of_day_le low
  have hi := Date.year_le_of_day_le high
  rw [(Date.ofFields?_eq_some_iff.mp hf).1] at lo
  rw [(Date.ofFields?_eq_some_iff.mp hl).1] at hi
  omega

end Almanac
