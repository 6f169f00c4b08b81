import Almanac.Proofs.Calendar.Clock

/-!
# Months in a row

Months differ in length, so a number of months is longer from one day on than from another. This file
fixes

* **a date by its month and its day there** (`Date.ofIndex?`, `Date.day_eq`), the month told by its
  index, the day by where the month begins (`monthStart`);
* **how much the length of a run of months can vary** (`monthStart_run_le`): by six days, three for
  the leap days on the way and three for the lengths of the months themselves. So do steps of months
  from date to date, although a month that is too short cuts them (`Date.day_of_addMonths?_le`);
* that **a step of months back is undone by the step forward only from where it ends**: what lies before
  that place does not come as far (`Date.day_le_of_addMonths?_back`).
-/

namespace Almanac

/-! ## 1. Dates by their month -/

namespace Date

/-- The date with a month index and a day of the month, if there is one. -/
def ofIndex? (index : Int) (day : Nat) : Option Date :=
  ofFields? (index / 12) ((index % 12).toNat + 1) day

/-- How many days the month with an index has. -/
def lengthAt (index : Int) : Nat := daysInMonth (index / 12) ((index % 12).toNat + 1)

variable {index : Int} {day : Nat} {d : Date}

theorem ofIndex?_eq_some_iff :
    ofIndex? index day = some d ↔ d.monthIndex = index ∧ d.dayOfMonth = day := by
  have year := d.year_eq_monthIndex_div
  have month := d.month_eq_monthIndex_mod
  unfold ofIndex?
  rw [ofFields?_eq_some_iff]
  constructor
  · intro ⟨sameYear, sameMonth, own⟩
    exact ⟨by omega, own⟩
  · rintro ⟨rfl, own⟩
    exact ⟨year, by omega, own⟩

theorem lengthAt_bounds (index : Int) : 28 ≤ lengthAt index :=
  twentyEight_le_daysInMonth (by omega) (by omega)

/-- Up to the last year of the calendar every month has its days. -/
theorem ofIndex?_isSome (low : firstYear ≤ index / 12) (high : index / 12 ≤ lastYear) (one : 1 ≤ day)
    (fits : day ≤ lengthAt index) : (ofIndex? index day).isSome :=
  ofFields?_isSome low high ⟨by omega, by omega⟩ ⟨one, fits⟩

/-- Behind the last year of the calendar there is no date. -/
theorem ofIndex?_eq_none (late : lastYear < index / 12) (day : Nat) : ofIndex? index day = none := by
  cases h : ofIndex? index day with
  | none => rfl
  | some d =>
    have own := (ofIndex?_eq_some_iff.mp h).1
    have year := d.year_eq_monthIndex_div
    have within := d.year_within.2
    omega

/-- No month has more than 31 days. -/
theorem lengthAt_le (index : Int) : lengthAt index ≤ 31 := by
  unfold lengthAt daysInMonth
  generalize isLeapYear (index / 12) = leap
  have all : ∀ leap : Bool, ∀ i : Fin 12, (monthLengths leap)[i.val]?.getD 0 ≤ 31 := by decide
  exact all leap ⟨(index % 12).toNat, by omega⟩

/-- Decembers have 31 days. -/
theorem lengthAt_of_december (h : index % 12 = 11) : lengthAt index = 31 := by
  unfold lengthAt daysInMonth
  rw [h]
  cases isLeapYear (index / 12) <;> rfl

theorem month_eq_toNat (d : Date) : (d.monthIndex % 12).toNat + 1 = d.month := by
  have := d.month_eq_monthIndex_mod
  omega

theorem daysInMonth_eq_lengthAt (d : Date) : daysInMonth d.year d.month = lengthAt d.monthIndex := by
  unfold lengthAt
  rw [d.month_eq_toNat, ← d.year_eq_monthIndex_div]

theorem ofFields?_eq_ofIndex? (d : Date) (day : Nat) :
    ofFields? d.year d.month day = ofIndex? d.monthIndex day := by
  unfold ofIndex?
  rw [d.month_eq_toNat, ← d.year_eq_monthIndex_div]

theorem dayOfMonth_le_lengthAt (d : Date) : d.dayOfMonth ≤ lengthAt d.monthIndex :=
  d.daysInMonth_eq_lengthAt ▸ d.fields_spec.2.2.2.1

/-- A month after the first of a month comes the first of the next. -/
theorem addMonths?_one_of_first (first : d.dayOfMonth = 1) :
    d.addMonths? 1 = ofIndex? (d.monthIndex + 1) 1 := by
  have one := lengthAt_bounds (d.monthIndex + 1)
  show ofIndex? (d.monthIndex + 1) (min d.dayOfMonth (lengthAt (d.monthIndex + 1))) = _
  rw [first, Nat.min_eq_left (by omega)]

end Date

/-! ## 2. Where months begin -/

/-- The day number of the first of a month. -/
def monthStart (index : Int) : Int :=
  yearStart (index / 12) + daysBeforeMonth (index / 12) ((index % 12).toNat + 1)

/-- Each month begins when the one before is over. -/
theorem monthStart_succ (index : Int) :
    monthStart (index + 1) = monthStart index + Date.lengthAt index := by
  have month : 1 ≤ (index % 12).toNat + 1 ∧ (index % 12).toNat + 1 ≤ 12 := by omega
  have next := daysBeforeMonth_succ (index / 12) month.1 month.2
  unfold monthStart Date.lengthAt
  by_cases last : index % 12 = 11
  · have year : (index + 1) / 12 = index / 12 + 1 := by omega
    have first : (index + 1) % 12 = 0 := by omega
    have whole : daysBeforeMonth (index / 12) (12 + 1) = daysInYear (index / 12) :=
      daysBeforeMonth_thirteen _
    have none : daysBeforeMonth (index / 12 + 1) ((0 : Int).toNat + 1) = 0 := rfl
    have month : (index % 12).toNat + 1 = 12 := by omega
    rw [month] at next ⊢
    rw [year, first, none, yearStart_succ]
    omega
  · have year : (index + 1) / 12 = index / 12 := by omega
    have same : ((index + 1) % 12).toNat + 1 = (index % 12).toNat + 1 + 1 := by omega
    rw [year, same]
    omega

namespace Date

variable {d e : Date}

/-- **A day is its place in its month.** -/
theorem day_eq (d : Date) : d.day = monthStart d.monthIndex + d.dayOfMonth - 1 := by
  obtain ⟨-, -, one, -, place⟩ := d.fields_spec
  have offset := d.dayOffset_eq
  unfold monthStart
  rw [d.month_eq_toNat, ← d.year_eq_monthIndex_div]
  omega

theorem one_le_dayOfMonth (d : Date) : 1 ≤ d.dayOfMonth := d.fields_spec.2.2.1

/-- In one month a later day of the month is a later day. -/
theorem day_lt_of_dayOfMonth_lt (same : d.monthIndex = e.monthIndex) (h : d.dayOfMonth < e.dayOfMonth) :
    d.day < e.day := by
  rw [d.day_eq, e.day_eq, same]
  omega

end Date

/-! ## 3. Runs of months -/

/-- The leap days up to the end of February of a year. -/
def leapDays (y : Int) : Int := y / 4 - y / 100 + y / 400

/-- The days from 1 March to the first of a month, which is so many months later. -/
def marchDays (months : Int) : Int := (153 * months + 2) / 5

theorem yearStart_eq_leapDays (y : Int) : yearStart y = 365 * y + leapDays (y - 1) + 1 := by
  have four : (y + 3) / 4 = (y - 1) / 4 + 1 := by omega
  have hundred : (y + 99) / 100 = (y - 1) / 100 + 1 := by omega
  have fourHundred : (y + 399) / 400 = (y - 1) / 400 + 1 := by omega
  unfold yearStart leapDays
  omega

/-- January and February begin alike in all years, the other months alike before the end of the year. -/
theorem daysBeforeMonth_eq (y : Int) {m : Nat} (h : m < 12) :
    (m < 2 → daysBeforeMonth y (m + 1) = 31 * m) ∧
      (2 ≤ m → (daysBeforeMonth y (m + 1) + 306 : Int) = daysInYear y + marchDays (m - 2)) := by
  have all : ∀ leap : Bool, ∀ i : Fin 12,
      (i.val < 2 → ((monthLengths leap).take i.val).foldl (· + ·) 0 = 31 * i.val) ∧
        (2 ≤ i.val → ((((monthLengths leap).take i.val).foldl (· + ·) 0 : Nat) : Int) + 306 =
          ((if leap then 366 else 365 : Nat) : Int) + marchDays (i.val - 2)) := by decide
  exact all (isLeapYear y) ⟨m, h⟩

/-- **Where a month begins**, counted from March: the leap day is then the last of its year. -/
theorem monthStart_eq (index : Int) :
    monthStart index = 365 * ((index - 2) / 12) + leapDays ((index - 2) / 12) +
      marchDays ((index - 2) % 12) + 60 := by
  obtain ⟨early, late⟩ := daysBeforeMonth_eq (index / 12) (show (index % 12).toNat < 12 by omega)
  unfold monthStart
  by_cases h : index % 12 < 2
  · have before := early (by omega)
    have year : (index - 2) / 12 = index / 12 - 1 := by omega
    have month : (index - 2) % 12 = index % 12 + 10 := by omega
    rw [before, year, month, yearStart_eq_leapDays]
    unfold marchDays
    omega
  · have before := late (by omega)
    have year : (index - 2) / 12 = index / 12 := by omega
    have month : (index - 2) % 12 = ((index % 12).toNat : Int) - 2 := by omega
    have next := yearStart_succ (index / 12)
    rw [yearStart_eq_leapDays, Int.add_sub_cancel] at next
    rw [year, month]
    omega

/-- Runs of years that are a year apart in length at most differ by three leap days at most, one for
    each rule of leap years. -/
theorem leapDays_run_le {a b c d : Int} (low : c - d ≤ a - b + 1) (high : a - b ≤ c - d + 1) :
    leapDays a - leapDays b ≤ leapDays c - leapDays d + 3 := by
  have four : a / 4 - b / 4 ≤ c / 4 - d / 4 + 1 := by omega
  have hundred : c / 100 - d / 100 ≤ a / 100 - b / 100 + 1 := by omega
  have fourHundred : a / 400 - b / 400 ≤ c / 400 - d / 400 + 1 := by omega
  unfold leapDays
  omega

/-- Runs of as many months within years differ by three days at most, where a year more or less makes up
    for twelve months. -/
theorem marchDays_run_le {a b c d k : Int} (hk : -1 ≤ k ∧ k ≤ 1) (same : 12 * k + (a - b) = c - d) :
    365 * k + (marchDays a - marchDays b) ≤ marchDays c - marchDays d + 3 := by
  unfold marchDays
  omega

/-- **A run of as many months is six days longer at most**, wherever it begins. -/
theorem monthStart_run_le (i j months : Int) :
    monthStart (i + months) - monthStart i ≤ monthStart (j + months) - monthStart j + 6 := by
  have years := leapDays_run_le (a := (i + months - 2) / 12) (b := (i - 2) / 12)
    (c := (j + months - 2) / 12) (d := (j - 2) / 12) (by omega) (by omega)
  have days := marchDays_run_le (a := (i + months - 2) % 12) (b := (i - 2) % 12)
    (c := (j + months - 2) % 12) (d := (j - 2) % 12)
    (k := (i + months - 2) / 12 - (i - 2) / 12 - ((j + months - 2) / 12 - (j - 2) / 12))
    (by omega) (by omega)
  rw [monthStart_eq, monthStart_eq, monthStart_eq, monthStart_eq]
  generalize (i + months - 2) / 12 = a at *
  generalize (i - 2) / 12 = b at *
  generalize (j + months - 2) / 12 = c at *
  generalize (j - 2) / 12 = d at *
  omega

/-! ## 4. Steps of months -/

namespace Date

variable {months : Int} {d e w x : Date}

/-- **Where a step of months ends**: on the same day of the month, or on the last if there is none. -/
theorem day_of_addMonths? (h : d.addMonths? months = some e) :
    e.monthIndex = d.monthIndex + months ∧
      e.dayOfMonth = min d.dayOfMonth (lengthAt (d.monthIndex + months)) := by
  have index := monthIndex_of_addMonths? h
  have day := dayOfMonth_of_addMonths? h
  rw [daysInMonth_eq_lengthAt, index] at day
  exact ⟨index, day⟩

/-- **A step of as many months is six days longer at most**, from whichever day. -/
theorem day_of_addMonths?_le (hd : d.addMonths? months = some e) (hw : w.addMonths? months = some x) :
    e.day - d.day ≤ x.day - w.day + 6 := by
  obtain ⟨ends, day⟩ := day_of_addMonths? hd
  obtain ⟨ends', day'⟩ := day_of_addMonths? hw
  rw [d.day_eq, e.day_eq, w.day_eq, x.day_eq, ends, ends', day, day']
  have own := w.dayOfMonth_le_lengthAt
  by_cases fits : w.dayOfMonth ≤ lengthAt (w.monthIndex + months)
  · have run := monthStart_run_le d.monthIndex w.monthIndex months
    omega
  · -- a step that is cut ends where the next month begins, and that month's run is no longer than the step
    have run := monthStart_run_le d.monthIndex (w.monthIndex + 1) months
    rw [Int.add_right_comm, monthStart_succ, monthStart_succ] at run
    omega

/-- **What does not lie behind the end of a step back does not come further than its start**, and what
    lies before that end does not come as far. -/
theorem day_le_of_addMonths?_back (hd : d.addMonths? months = some e)
    (back : w.addMonths? (-months) = some x) :
    (d.day ≤ x.day → e.day ≤ w.day) ∧ (d.day < x.day → e.day < w.day) := by
  obtain ⟨ends, day⟩ := day_of_addMonths? hd
  obtain ⟨ends', day'⟩ := day_of_addMonths? back
  have one := d.one_le_dayOfMonth
  have long := w.dayOfMonth_le_lengthAt
  by_cases same : d.monthIndex = x.monthIndex
  · have sameEnd : e.monthIndex = w.monthIndex := by omega
    rw [d.day_eq, x.day_eq, e.day_eq, w.day_eq, same, sameEnd]
    omega
  · have earlier : d.day ≤ x.day → e.day < w.day := fun le => by
      have := monthIndex_le_of_day_le le
      exact day_lt_of_monthIndex_lt (by omega)
    exact ⟨fun le => Int.le_of_lt (earlier le), fun lt => earlier (Int.le_of_lt lt)⟩

end Date

end Almanac
