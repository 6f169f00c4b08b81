import Almanac.Proofs.Calendar.Fields
import Almanac.Rule.Stages
import Mathlib.Data.List.Basic

/-!
# What spans of dates hold

Away from the last year of the calendar nothing is missing from a span. This file shows

* a list of spaced dates has every date of its span that is a multiple of the step from the first, each
  at its place (`Date.mem_spaced_iff`, `Date.map_day_spaced`);
* **the bounds of a year and of a month hold the dates of that year and that month, and no others**
  (`Date.within_yearBounds?`, `Date.within_monthBounds?`);
* **a place is told by what lies before it and behind it** (`IsPlace`), so it is counted from either end
  of a row (`placed_iff`, `placed_iff_isPlace`), of a year (`placed_ordinal_iff`) and of a month
  (`placed_dayOfMonth_iff`), where it leads to the one day that has it (`Rule.monthDay?_eq_some_iff`);
* a weekday of a span is the one that its ordinal counts to among those of its name, or any of them
  without an ordinal (`DayEntry.mem_datesIn_iff`).
-/

namespace Almanac

namespace Date

/-! ## 1. Spaced dates -/

/-- Before the last year the calendar has room for one more year. -/
theorem room {d : Date} (h : d.year < lastYear) : d.day + 365 ≤ lastDay := by
  have := d.year_bounds.2
  have start := yearStart_le_of_le (show d.year + 1 ≤ lastYear by omega)
  have last : yearStart lastYear = lastDay - 364 := by decide
  omega

theorem mem_spaced_iff {step : Nat} {first last d : Date} (hstep : 0 < step)
    (fits : last.day + step ≤ lastDay) :
    d ∈ spaced step first last ↔
      first.day ≤ d.day ∧ d.day ≤ last.day ∧ (step : Int) ∣ d.day - first.day := by
  constructor
  · intro h
    obtain ⟨low, high⟩ := mem_spaced hstep h
    unfold spaced at h
    obtain ⟨i, -, hd⟩ := List.mem_filterMap.mp h
    obtain ⟨_, -, hd⟩ := Option.bind_eq_some_iff.mp hd
    have day := ofDay?_eq_some_iff.mp hd
    refine ⟨low, high, (i : Int), ?_⟩
    rw [day, Int.natCast_mul]
    omega
  · rintro ⟨low, high, i, hi⟩
    have nonneg : 0 ≤ i := by
      refine Int.not_lt.mp fun neg => ?_
      have := Int.mul_neg_of_pos_of_neg (show (0 : Int) < step by omega) neg
      omega
    obtain ⟨n, rfl⟩ := Int.eq_ofNat_of_zero_le nonneg
    have below : (n : Int) ≤ (last.day - first.day) / step := by
      rw [Int.le_ediv_iff_mul_le (by omega), Int.mul_comm]
      omega
    have next : (step * (n + 1) : Nat) = (step : Int) * n + step := by
      rw [Int.natCast_mul]
      push_cast
      rw [Int.mul_add, Int.mul_one]
    have reach : (first.addDays? (step * (n + 1) : Nat)).isSome := by
      have := first.first_le
      have inside : firstDay ≤ first.day + (step * (n + 1) : Nat) ∧
          first.day + (step * (n + 1) : Nat) ≤ lastDay := by omega
      simp only [addDays?, ofDay?, dif_pos inside, Option.isSome_some]
    obtain ⟨after, hafter⟩ := Option.isSome_iff_exists.mp reach
    unfold spaced
    refine List.mem_filterMap.mpr ⟨n, List.mem_range.mpr (by omega), ?_⟩
    rw [hafter, Option.bind_some]
    refine ofDay?_eq_some_iff.mpr ?_
    rw [Int.natCast_mul]
    omega

/-- Spaced dates stand in a row at their distance. -/
theorem map_day_spaced {step : Nat} {first last : Date} (hstep : 0 < step)
    (fits : last.day + step ≤ lastDay) : (spaced step first last).map Date.day =
      (List.range ((last.day - first.day) / step + 1).toNat).map fun i =>
        first.day + (step * i : Nat) := by
  unfold spaced
  rw [List.map_filterMap]
  refine List.filterMap_eq_map_iff_forall_eq_some.mpr fun i hi => ?_
  have few : (i : Int) ≤ (last.day - first.day) / step := by
    have := List.mem_range.mp hi
    omega
  have reach := Int.mul_le_mul_of_nonneg_left few (Int.natCast_nonneg step)
  have whole := Int.mul_ediv_self_le (x := last.day - first.day) (k := step) (by omega)
  have next : (step * (i + 1) : Nat) = (step : Int) * i + step := by
    push_cast
    rw [Int.mul_add, Int.mul_one]
  have own : (step * i : Nat) = (step : Int) * i := by push_cast; rfl
  have low := first.first_le
  have nonneg := Int.mul_nonneg (Int.natCast_nonneg step) (Int.natCast_nonneg i)
  have after : firstDay ≤ first.day + (step * (i + 1) : Nat) ∧
      first.day + (step * (i + 1) : Nat) ≤ lastDay := by omega
  have here : firstDay ≤ first.day + (step * i : Nat) ∧
      first.day + (step * i : Nat) ≤ lastDay := by omega
  simp only [addDays?, ofDay?, dif_pos after, dif_pos here, Option.bind_some, Option.map_some]

/-! ## 2. Years and months -/

theorem day_of_ofFields? {y : Int} {m i : Nat} {d : Date} (h : ofFields? y m i = some d) :
    d.day = yearStart y + (daysBeforeMonth y m + (i - 1) : Nat) := by
  unfold ofFields? at h
  split at h
  · exact ofDay?_eq_some_iff.mp h
  · cases h

/-- **The bounds of a year hold the dates of the year, and no others.** -/
theorem within_yearBounds? (d : Date) : ∃ first last, d.yearBounds? = some (first, last) ∧
    last.year = d.year ∧ ∀ e : Date, first.day ≤ e.day ∧ e.day ≤ last.day ↔ e.year = d.year := by
  obtain ⟨low, high⟩ := d.year_within
  obtain ⟨first, hf⟩ := Option.isSome_iff_exists.mp
    (ofFields?_isSome low high (m := 1) (i := 1) (by decide) ⟨by decide, one_le_daysInMonth (by decide) (by decide)⟩)
  have december : daysInMonth d.year 12 = 31 := by
    unfold daysInMonth
    cases isLeapYear d.year <;> rfl
  obtain ⟨last, hl⟩ := Option.isSome_iff_exists.mp
    (ofFields?_isSome low high (m := 12) (i := 31) (by decide) ⟨by decide, by omega⟩)
  have bounds : d.yearBounds? = some (first, last) := by
    unfold yearBounds?
    rw [hf, hl]
    rfl
  refine ⟨first, last, bounds, (ofFields?_eq_some_iff.mp hl).1, fun e => ⟨?_, fun year => ?_⟩⟩
  · rintro ⟨from', to'⟩
    exact year_of_yearBounds? bounds from' to'
  · have start := day_of_ofFields? hf
    have stop := day_of_ofFields? hl
    have whole := daysBeforeMonth_succ d.year (m := 12) (by decide) (by decide)
    rw [daysBeforeMonth_thirteen] at whole
    have own := e.dayOffset_eq
    have few := e.dayOffset_lt
    have january : daysBeforeMonth d.year 1 = 0 := rfl
    rw [year] at own few
    omega

/-- **The bounds of a month hold the dates of the month, and no others.** -/
theorem within_monthBounds? (d : Date) : ∃ first last, d.monthBounds? = some (first, last) ∧
    last.year = d.year ∧
      ∀ e : Date, first.day ≤ e.day ∧ e.day ≤ last.day ↔ e.year = d.year ∧ e.month = d.month := by
  obtain ⟨low, high⟩ := d.year_within
  obtain ⟨m1, m2, -, -, -⟩ := d.fields_spec
  have some' := one_le_daysInMonth (y := d.year) m1 m2
  obtain ⟨first, hf⟩ := Option.isSome_iff_exists.mp
    (ofFields?_isSome low high (i := 1) ⟨m1, m2⟩ ⟨by decide, some'⟩)
  obtain ⟨last, hl⟩ := Option.isSome_iff_exists.mp
    (ofFields?_isSome low high (i := daysInMonth d.year d.month) ⟨m1, m2⟩ ⟨some', Nat.le_refl _⟩)
  have bounds : d.monthBounds? = some (first, last) := by
    unfold monthBounds?
    rw [hf, hl]
    rfl
  refine ⟨first, last, bounds, (ofFields?_eq_some_iff.mp hl).1, fun e => ⟨?_, ?_⟩⟩
  · rintro ⟨from', to'⟩
    have index := monthIndex_of_monthBounds? bounds from' to'
    have year : e.year = d.year := by
      rw [year_eq_monthIndex_div, year_eq_monthIndex_div, index]
    have month := e.month_eq_monthIndex_mod
    rw [index, ← d.month_eq_monthIndex_mod] at month
    exact ⟨year, by omega⟩
  · rintro ⟨year, month⟩
    have start := day_of_ofFields? hf
    have stop := day_of_ofFields? hl
    obtain ⟨-, -, i1, i2, offset⟩ := e.fields_spec
    have own := e.dayOffset_eq
    rw [year] at own
    rw [year, month] at i2 offset
    omega

/-- What lies before a date of a year, and behind it. -/
theorem offsets_yearBounds? {d e first last : Date} (h : d.yearBounds? = some (first, last))
    (year : e.year = d.year) : e.day - first.day = (e.ordinal - 1 : Nat) ∧
      last.day - e.day = (daysInYear e.year - e.ordinal : Nat) := by
  obtain ⟨newYear, hf, h⟩ := Option.bind_eq_some_iff.mp h
  obtain ⟨lastOf, hl, h⟩ := Option.bind_eq_some_iff.mp h
  cases h
  have start := day_of_ofFields? hf
  have stop := day_of_ofFields? hl
  have december : daysInMonth d.year 12 = 31 := by
    unfold daysInMonth
    cases isLeapYear d.year <;> rfl
  have whole := daysBeforeMonth_succ d.year (m := 12) (by decide) (by decide)
  rw [daysBeforeMonth_thirteen, december] at whole
  have january : daysBeforeMonth d.year 1 = 0 := rfl
  have own := e.dayOffset_eq
  have few := e.dayOffset_lt
  have ordinal : e.ordinal = e.dayOffset + 1 := rfl
  rw [year] at own few ⊢
  omega

/-- What lies before a date of a month, and behind it. -/
theorem offsets_monthBounds? {d e first last : Date} (h : d.monthBounds? = some (first, last))
    (year : e.year = d.year) (month : e.month = d.month) :
    e.day - first.day = (e.dayOfMonth - 1 : Nat) ∧
      last.day - e.day = (daysInMonth e.year e.month - e.dayOfMonth : Nat) := by
  obtain ⟨firstOf, hf, h⟩ := Option.bind_eq_some_iff.mp h
  obtain ⟨lastOf, hl, h⟩ := Option.bind_eq_some_iff.mp h
  cases h
  have start := day_of_ofFields? hf
  have stop := day_of_ofFields? hl
  obtain ⟨-, -, i1, i2, offset⟩ := e.fields_spec
  have own := e.dayOffset_eq
  rw [year] at own
  rw [year, month] at i2 offset ⊢
  omega

end Date

/-! ## 3. Places -/

/-- The place of what has so many before it in a row and so many behind it, counted from the front, or
    from the back when it is below zero. -/
def IsPlace (place : Int) (before behind : Nat) : Prop :=
  place = before + 1 ∨ place = -(behind + 1 : Int)

instance (place : Int) (before behind : Nat) : Decidable (IsPlace place before behind) :=
  inferInstanceAs (Decidable (_ ∨ _))

/-- The place of a date among the days of its weekday in its year: it has a week's days of the year
    before it, or behind it, for each of them. -/
def Date.IsNthOfYear (d : Date) (place : Int) : Prop :=
  IsPlace place ((d.ordinal - 1) / 7) ((daysInYear d.year - d.ordinal) / 7)

/-- The place of a date among the days of its weekday in its month. -/
def Date.IsNthOfMonth (d : Date) (place : Int) : Prop :=
  IsPlace place ((d.dayOfMonth - 1) / 7) ((daysInMonth d.year d.month - d.dayOfMonth) / 7)

instance (d : Date) (place : Int) : Decidable (d.IsNthOfYear place) :=
  inferInstanceAs (Decidable (IsPlace _ _ _))

instance (d : Date) (place : Int) : Decidable (d.IsNthOfMonth place) :=
  inferInstanceAs (Decidable (IsPlace _ _ _))

/-- What stands at a place of a row has as many before it, and behind it, as the place says. -/
theorem pick?_eq_some_iff {α : Type} {values : List α} {place : Int} {a : α} (counted : place ≠ 0) :
    pick? values place = some a ↔
      ∃ i, values[i]? = some a ∧ IsPlace place i (values.length - (i + 1)) := by
  unfold pick? IsPlace
  by_cases front : 0 < place
  · rw [if_pos front]
    constructor
    · intro h
      exact ⟨place.toNat - 1, h, .inl (by omega)⟩
    · intro ⟨i, h, own⟩
      rwa [show place.toNat - 1 = i by omega]
  · rw [if_neg front]
    by_cases within : place.natAbs ≤ values.length
    · rw [if_pos within]
      constructor
      · intro h
        exact ⟨values.length - place.natAbs, h, .inr (by omega)⟩
      · intro ⟨i, h, own⟩
        have := (List.getElem?_eq_some_iff.mp h).1
        rwa [show values.length - place.natAbs = i by omega]
    · rw [if_neg within]
      constructor
      · intro h
        cases h
      · intro ⟨i, h, own⟩
        have := (List.getElem?_eq_some_iff.mp h).1
        omega

/-- Every day of a year is the one with its year and its place in it. -/
theorem Date.ofOrdinal?_eq_some_iff {y : Int} {ordinal : Nat} {d : Date} :
    Date.ofOrdinal? y ordinal = some d ↔ d.year = y ∧ d.ordinal = ordinal := by
  refine ⟨Date.year_of_ofOrdinal?, ?_⟩
  rintro ⟨rfl, rfl⟩
  have within := d.dayOffset_lt
  have own := d.dayOffset_eq
  unfold Date.ofOrdinal? Date.ordinal
  rw [if_pos (by omega), Date.ofDay?_eq_some_iff, Nat.add_sub_cancel]
  omega

/-- **A place is counted from either end**: of a length, a value has the place that counting from
    the front or from the back leads to. -/
theorem placed_iff {places : List Int} {value length : Nat} (low : 1 ≤ value)
    (high : value ≤ length) :
    placed places value length = true ↔
      ∃ place ∈ places, (if 0 < place then place else (length : Int) + place + 1) = value := by
  unfold placed
  rw [List.any_eq_true]
  simp only [Bool.or_eq_true, decide_eq_true_eq]
  refine exists_congr fun place => and_congr_right fun _ => ?_
  by_cases front : 0 < place
  · rw [if_pos front]
    omega
  · rw [if_neg front]
    omega

/-- **Whether a value is at one of the places.** -/
theorem placed_iff_isPlace {places : List Int} {value length : Nat} (low : 1 ≤ value)
    (high : value ≤ length) :
    placed places value length = true ↔
      ∃ place ∈ places, IsPlace place (value - 1) (length - value) := by
  unfold placed IsPlace
  rw [List.any_eq_true]
  simp only [Bool.or_eq_true, decide_eq_true_eq]
  refine exists_congr fun place => and_congr_right fun _ => ?_
  omega

theorem placed_ordinal_iff_isPlace {places : List Int} (d : Date) :
    placed places d.ordinal (daysInYear d.year) = true ↔
      ∃ place ∈ places, IsPlace place (d.ordinal - 1) (daysInYear d.year - d.ordinal) :=
  placed_iff_isPlace (Nat.succ_pos _) d.dayOffset_lt

theorem placed_dayOfMonth_iff_isPlace {places : List Int} (d : Date) :
    placed places d.dayOfMonth (daysInMonth d.year d.month) = true ↔ ∃ place ∈ places,
      IsPlace place (d.dayOfMonth - 1) (daysInMonth d.year d.month - d.dayOfMonth) :=
  placed_iff_isPlace d.fields_spec.2.2.1 d.fields_spec.2.2.2.1

theorem placed_ordinal_iff {places : List Int} (d : Date) :
    placed places d.ordinal (daysInYear d.year) = true ↔ ∃ place ∈ places,
      (if 0 < place then place else (daysInYear d.year : Int) + place + 1) = d.ordinal :=
  placed_iff (Nat.succ_pos _) d.dayOffset_lt

theorem placed_dayOfMonth_iff {places : List Int} (d : Date) :
    placed places d.dayOfMonth (daysInMonth d.year d.month) = true ↔ ∃ place ∈ places,
      (if 0 < place then place else (daysInMonth d.year d.month : Int) + place + 1) =
        d.dayOfMonth :=
  placed_iff d.fields_spec.2.2.1 d.fields_spec.2.2.2.1

/-- The day at a place of a month is the one of that month that has the place. -/
theorem Rule.monthDay?_eq_some_iff {y : Int} {m : Nat} {place : Int} {d : Date} :
    Rule.monthDay? .leaveOut y m place = some d ↔ d.year = y ∧ d.month = m ∧
      (if 0 < place then place else (daysInMonth y m : Int) + place + 1) = d.dayOfMonth := by
  obtain ⟨-, -, low, high, -⟩ := d.fields_spec
  unfold Rule.monthDay?
  dsimp only
  generalize (if 0 < place then place else (daysInMonth y m : Int) + place + 1) = day
  by_cases within : 1 ≤ day ∧ day ≤ daysInMonth y m
  · rw [if_pos within, Date.ofFields?_eq_some_iff]
    refine and_congr_right fun _ => and_congr_right fun _ => ?_
    omega
  · rw [if_neg within]
    constructor
    · intro h
      obtain ⟨_, -, h⟩ := Option.bind_eq_some_iff.mp h
      cases h
    · rintro ⟨rfl, rfl, own⟩
      exact absurd (by omega) within

/-! ## 4. Weekdays -/

/-- A weekday by its number, counted from the day number. -/
theorem Date.index_weekday (d : Date) : (d.weekday.index : Int) = (d.day + 5) % 7 := by
  unfold Date.weekday
  rw [Weekday.index_ofIndex]
  omega

theorem Weekday.eq_of_index_eq {a b : Weekday} (h : a.index = b.index) : a = b := by
  rw [← ofIndex_index a, ← ofIndex_index b, h]

/-- How far into its week a date lies, told by its day number. -/
theorem Date.after_weekday (d : Date) (first : Weekday) :
    ((d.weekday.after first : Nat) : Int) = (d.day + 5 - first.index) % 7 := by
  have := d.index_weekday
  have := d.weekday.index_lt
  have := first.index_lt
  unfold Weekday.after
  omega

namespace DayEntry

variable {e : DayEntry} {first last start d : Date}

/-- The first weekday of a name in a span is less than a week into it, and every other one is whole weeks
    from it. -/
theorem start_spec (hs : first.addDays? (e.day.after first.weekday) = some start) :
    (first.day ≤ start.day ∧ start.day < first.day + 7) ∧
      (e.day = d.weekday ↔ (7 : Int) ∣ d.day - start.day) := by
  have lead : ((e.day.after first.weekday : Nat) : Int) = (e.day.index - first.day - 5) % 7 := by
    have := first.index_weekday
    have := e.day.index_lt
    have := first.weekday.index_lt
    unfold Weekday.after
    omega
  have day := Date.ofDay?_eq_some_iff.mp hs
  have same : e.day = d.weekday ↔ (e.day.index : Int) = (d.day + 5) % 7 := by
    rw [← d.index_weekday]
    constructor
    · intro k
      rw [k]
    · intro k
      exact Weekday.eq_of_index_eq (by omega)
  have index := e.day.index_lt
  refine ⟨by omega, same.trans ?_⟩
  omega

/-- **The weekdays of a span**: one is meant by an entry of its name without an ordinal, and by one whose
    ordinal counts the weeks of the span before it, or behind it. -/
theorem mem_datesIn_iff (fits : last.day + 7 ≤ lastDay) :
    d ∈ e.datesIn first last ↔ (first.day ≤ d.day ∧ d.day ≤ last.day) ∧ e.day = d.weekday ∧
      (e.ordinal = 0 ∨ IsPlace e.ordinal ((d.day - first.day) / 7).toNat
        ((last.day - d.day) / 7).toNat) := by
  have small := Weekday.after_lt e.day first.weekday
  unfold datesIn
  cases hs : first.addDays? (e.day.after first.weekday) with
  | none =>
    -- the first such weekday lies behind the calendar, and so behind the span
    have empty : ∀ place, pick? ([] : List Date) place = none := fun place => by simp [pick?]
    simp only [empty, Option.toList_none, ite_self, List.not_mem_nil, false_iff, not_and]
    rintro ⟨low, high⟩
    have inside : firstDay ≤ first.day + (e.day.after first.weekday : Nat) ∧
        first.day + (e.day.after first.weekday : Nat) ≤ lastDay := by
      have := first.first_le
      omega
    simp only [Date.addDays?, Date.ofDay?, dif_pos inside] at hs
    cases hs
  | some start =>
    obtain ⟨near, weekday⟩ := start_spec (d := d) hs
    have listed : d ∈ Date.spaced 7 start last ↔
        (first.day ≤ d.day ∧ d.day ≤ last.day) ∧ e.day = d.weekday := by
      rw [Date.mem_spaced_iff (by decide) fits, weekday]
      show start.day ≤ d.day ∧ d.day ≤ last.day ∧ (7 : Int) ∣ d.day - start.day ↔ _
      omega
    by_cases plain : e.ordinal = 0
    · simp only [plain, if_true, true_or, and_true]
      exact listed
    · have row := @Date.map_day_spaced 7 start last (by decide) fits
      have length := congrArg List.length row
      rw [List.length_map, List.length_map, List.length_range] at length
      have place : ∀ i, (Date.spaced 7 start last)[i]? = some d →
          i = ((d.day - first.day) / 7).toNat ∧ (Date.spaced 7 start last).length - (i + 1) =
            ((last.day - d.day) / 7).toNat := by
        intro i at'
        have own := congrArg (·[i]?) row
        simp only [List.getElem?_map, at', Option.map_some] at own
        have within := (List.getElem?_eq_some_iff.mp at').1
        rw [List.getElem?_range (by omega), Option.map_some, Option.some.injEq] at own
        omega
      simp only [plain, if_false, false_or, Option.mem_toList]
      rw [pick?_eq_some_iff plain, ← and_assoc, ← listed]
      constructor
      · rintro ⟨i, at', own⟩
        obtain ⟨before, behind⟩ := place i at'
        rw [behind, before] at own
        exact ⟨List.mem_of_getElem? at', own⟩
      · rintro ⟨mem, own⟩
        obtain ⟨i, at'⟩ := List.mem_iff_getElem?.mp mem
        obtain ⟨before, behind⟩ := place i at'
        exact ⟨i, at', by rw [behind, before]; exact own⟩

end DayEntry

end Almanac
