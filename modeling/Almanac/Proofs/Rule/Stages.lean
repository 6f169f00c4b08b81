import Almanac.Proofs.Rule.Units
import Almanac.Rule.Stages

/-!
# Where the stages of a rule lead

A limiting stage keeps its input or drops it, an expanding stage only spreads it over the unit that
it lies in. This file shows

* **every stage stays in the unit of its input** (`unitIndex_of_mem_stages`), as long as the rule
  leaves out the days that a month does not have: the other skip policies put them into a
  neighbouring month;
* so the civil times of an increment lie in the unit of the increment
  (`unitIndex_of_mem_civilCandidates`).
-/

namespace Almanac

/-! ## 1. Places and spans -/

theorem mem_of_pick? {α : Type} {values : List α} {place : Int} {a : α}
    (h : pick? values place = some a) : a ∈ values := by
  unfold pick? at h
  split at h
  · exact List.mem_of_getElem? h
  · split at h
    · exact List.mem_of_getElem? h
    · cases h

/-- The dates of a weekday in a span lie in the span. -/
theorem DayEntry.mem_datesIn {e : DayEntry} {first last d : Date} (h : d ∈ e.datesIn first last) :
    first.day ≤ d.day ∧ d.day ≤ last.day := by
  unfold datesIn at h
  cases hs : first.addDays? (e.day.after first.weekday) with
  | none => simp [hs, pick?] at h
  | some start =>
    have low := Date.ofDay?_eq_some_iff.mp hs
    have mem : d ∈ Date.spaced 7 start last := by
      simp only [hs] at h
      split at h
      · exact h
      · exact mem_of_pick? (Option.mem_toList.mp h)
    have := Date.mem_spaced (by decide) mem
    omega

namespace Rule

variable {r : Rule} {c x : Civil}

theorem mem_keepIf {test : Civil → Bool} : x ∈ keepIf test c ↔ x = c ∧ test c = true := by
  unfold keepIf
  split <;> simp_all

/-! ## 2. Stages for dates -/

/-- Another date of the year leaves the unit of a yearly rule alone. -/
theorem unitIndex_onDate_of_year {d : Date} (hf : r.frequency = .yearly)
    (h : d.year = c.date.year) : r.unitIndex (c.onDate d) = r.unitIndex c := by
  unfold unitIndex
  rw [hf]
  simp only [Frequency.unitIndex, Civil.date_onDate, h]

/-- Another date of the month leaves the unit of a monthly or yearly rule alone. -/
theorem unitIndex_onDate_of_monthIndex {d : Date}
    (hf : r.frequency = .monthly ∨ r.frequency = .yearly)
    (h : d.monthIndex = c.date.monthIndex) : r.unitIndex (c.onDate d) = r.unitIndex c := by
  unfold unitIndex
  rcases hf with hf | hf
  · rw [hf]
    simp only [Frequency.unitIndex, Civil.date_onDate, h]
  · rw [hf]
    simp only [Frequency.unitIndex, Civil.date_onDate, Date.year_eq_monthIndex_div, h]

theorem unitIndex_of_mem_byMonth (h : x ∈ r.byMonth c) : r.unitIndex x = r.unitIndex c := by
  unfold byMonth at h
  split at h
  · rename_i hf
    obtain ⟨month, -, hx⟩ := List.mem_filterMap.mp h
    obtain ⟨d, hd, rfl⟩ := Option.map_eq_some_iff.mp hx
    exact unitIndex_onDate_of_year hf (Date.ofFields?_eq_some_iff.mp hd).1
  · rw [(mem_keepIf.mp h).1]

theorem unitIndex_of_mem_byWeekNumber (h : x ∈ r.byWeekNumber c) :
    r.unitIndex x = r.unitIndex c := by
  unfold byWeekNumber at h
  split at h
  · rename_i hf
    split at h
    · cases h
    · rename_i first last bounds
      obtain ⟨d, hd, rfl⟩ := List.mem_map.mp h
      obtain ⟨low, high⟩ := Date.mem_spaced (by decide) (List.mem_filter.mp hd).1
      exact unitIndex_onDate_of_year hf (Date.year_of_yearBounds? bounds low high)
  · rw [(mem_keepIf.mp h).1]

theorem unitIndex_of_mem_byYearDay (h : x ∈ r.byYearDay c) : r.unitIndex x = r.unitIndex c := by
  unfold byYearDay at h
  split at h
  · rename_i hf
    have yearly : r.frequency = .yearly := by simp_all
    obtain ⟨place, -, hx⟩ := List.mem_filterMap.mp h
    obtain ⟨d, hd, rfl⟩ := Option.map_eq_some_iff.mp hx
    have hd := (Option.filter_eq_some_iff.mp hd).1
    exact unitIndex_onDate_of_year yearly (Date.year_of_ofOrdinal? hd).1
  · rw [(mem_keepIf.mp h).1]

/-- A place in a month is a date of that month, unless a skip policy moves it. -/
theorem fields_of_monthDay? {year : Int} {month : Nat} {place : Int} {d : Date}
    (h : monthDay? .leaveOut year month place = some d) : d.year = year ∧ d.month = month := by
  unfold monthDay? at h
  dsimp only at h
  generalize (if 0 < place then place else (daysInMonth year month : Int) + place + 1) = day at h
  split at h
  · have := Date.ofFields?_eq_some_iff.mp h
    exact ⟨this.1, this.2.1⟩
  · simp at h

theorem unitIndex_of_mem_byMonthDay {places : List Int} (hskip : r.skip = .leaveOut)
    (h : x ∈ r.byMonthDay places c) : r.unitIndex x = r.unitIndex c := by
  unfold byMonthDay at h
  dsimp only at h
  split at h
  · rename_i expands
    obtain ⟨month, hm, hx⟩ := List.mem_flatMap.mp h
    obtain ⟨d, hd, rfl⟩ := List.mem_map.mp hx
    obtain ⟨place, -, hd⟩ := List.mem_filterMap.mp hd
    rw [hskip] at hd
    obtain ⟨year, hmonth⟩ := fields_of_monthDay? hd
    by_cases yearly : r.frequency = .yearly
    · exact unitIndex_onDate_of_year yearly year
    · have monthly : r.frequency = .monthly := by simp_all
      -- only a yearly rule takes the listed days in every month
      have same : month = c.date.month := by simpa [monthly] using hm
      exact unitIndex_onDate_of_monthIndex (.inl monthly)
        (Date.monthIndex_eq year (hmonth.trans same))
  · rw [(mem_keepIf.mp h).1]

/-- What `daysWithin` takes is a date between the bounds, or its input. -/
theorem mem_daysWithin {expands : Bool} {entries : List DayEntry} {bounds : Option (Date × Date)}
    (h : x ∈ daysWithin expands entries bounds c) :
    x = c ∨ expands = true ∧ ∃ first last d, bounds = some (first, last) ∧ first.day ≤ d.day ∧
      d.day ≤ last.day ∧ x = c.onDate d := by
  unfold daysWithin at h
  split at h
  · cases h
  · rename_i first last
    split at h
    · rename_i he
      obtain ⟨d, hd, rfl⟩ := List.mem_map.mp h
      obtain ⟨e, -, hd⟩ := List.mem_flatMap.mp hd
      obtain ⟨low, high⟩ := DayEntry.mem_datesIn hd
      exact .inr ⟨he, first, last, d, rfl, low, high, rfl⟩
    · exact .inl (mem_keepIf.mp h).1

/-- The listed weekdays of a week are days of that week. -/
theorem unitIndex_of_weekday {start d : Date} {day : Weekday} (hf : r.frequency = .weekly)
    (hs : c.date.addDays? (-(c.date.weekday.after r.weekStart : Int)) = some start)
    (hd : start.addDays? (day.after r.weekStart) = some d) :
    r.unitIndex (c.onDate d) = r.unitIndex c := by
  have first := Date.ofDay?_eq_some_iff.mp hs
  have this := Date.ofDay?_eq_some_iff.mp hd
  have lead : ((c.date.weekday.after r.weekStart : Nat) : Int) =
      (c.date.day + 5 - r.weekStart.index) % 7 := by
    have := r.weekStart.index_lt
    unfold Weekday.after Date.weekday
    rw [Weekday.index_ofIndex]
    omega
  have := Weekday.after_lt day r.weekStart
  unfold unitIndex
  rw [hf]
  simp only [Frequency.unitIndex, Civil.date_onDate]
  omega

/-- Only weekly rules take the weekdays of a week. -/
theorem frequency_of_week (h : r.dayScope = .week) : r.frequency = .weekly := by
  unfold dayScope at h
  cases hf : r.frequency <;> grind

/-- Only monthly and yearly rules take the weekdays of a month. -/
theorem frequency_of_month {expands : Bool} (h : r.dayScope = .month expands) :
    r.frequency = .monthly ∨ r.frequency = .yearly := by
  unfold dayScope at h
  cases hf : r.frequency <;> simp [hf] at h ⊢

/-- Only yearly rules take the weekdays of a year. -/
theorem frequency_of_year {expands : Bool} (h : r.dayScope = .year expands) :
    r.frequency = .yearly := by
  unfold dayScope at h
  cases hf : r.frequency <;> simp [hf] at h ⊢

theorem unitIndex_of_mem_byDay {entries : List DayEntry} (h : x ∈ r.byDay entries c) :
    r.unitIndex x = r.unitIndex c := by
  unfold byDay at h
  cases hs : r.dayScope with
  | anyWhere =>
    rw [hs] at h
    rw [(mem_keepIf.mp h).1]
  | week =>
    rw [hs] at h
    simp only at h
    split at h
    · cases h
    · rename_i start hstart
      obtain ⟨d, hd, rfl⟩ := List.mem_map.mp h
      obtain ⟨e, -, hd⟩ := List.mem_filterMap.mp (List.mem_filter.mp hd).1
      exact unitIndex_of_weekday (frequency_of_week hs) hstart hd
  | month expands =>
    rw [hs] at h
    rcases mem_daysWithin h with rfl | ⟨-, first, last, d, bounds, low, high, rfl⟩
    · rfl
    · exact unitIndex_onDate_of_monthIndex (frequency_of_month hs)
        (Date.monthIndex_of_monthBounds? bounds low high)
  | year expands =>
    rw [hs] at h
    rcases mem_daysWithin h with rfl | ⟨-, first, last, d, bounds, low, high, rfl⟩
    · rfl
    · exact unitIndex_onDate_of_year (frequency_of_year hs)
        (Date.year_of_yearBounds? bounds low high)

/-! ## 3. Stages for the time of day -/

/-- From an hour on, units are told by the hour; from a minute on, by the minute. -/
theorem unitIndex_eq_of_hour_eq (hf : Frequency.hourly.rank ≤ r.frequency.rank)
    (h : x.stamp / 3600 = c.stamp / 3600) : r.unitIndex x = r.unitIndex c := by
  by_cases hourly : r.frequency = .hourly
  · unfold unitIndex
    rw [hourly]
    exact h
  · have daily : Frequency.daily.rank ≤ r.frequency.rank := by
      cases hr : r.frequency <;> simp_all [Frequency.rank]
    refine Frequency.unitIndex_eq_of_date_eq daily (Date.ext ?_)
    rw [Civil.day_date, Civil.day_date]
    omega

theorem unitIndex_eq_of_minute_eq (hf : Frequency.minutely.rank ≤ r.frequency.rank)
    (h : x.stamp / 60 = c.stamp / 60) : r.unitIndex x = r.unitIndex c := by
  by_cases minutely : r.frequency = .minutely
  · unfold unitIndex
    rw [minutely]
    exact h
  · have hourly : Frequency.hourly.rank ≤ r.frequency.rank := by
      cases hr : r.frequency <;> simp_all [Frequency.rank]
    exact unitIndex_eq_of_hour_eq hourly (by omega)

theorem mem_byClock {expands : Bool} {get : Civil → Nat} {set? : Civil → Nat → Option Civil}
    {values : List Nat} (h : x ∈ byClock expands get set? values c) :
    x = c ∨ expands = true ∧ ∃ value ∈ values, set? c value = some x := by
  unfold byClock at h
  split at h
  · rename_i he
    exact .inr ⟨he, List.mem_filterMap.mp h⟩
  · exact .inl (mem_keepIf.mp h).1

theorem unitIndex_of_mem_byHour (h : x ∈ r.byHour c) : r.unitIndex x = r.unitIndex c := by
  rcases mem_byClock h with rfl | ⟨hf, _, -, hx⟩
  · rfl
  · exact Frequency.unitIndex_eq_of_date_eq (of_decide_eq_true hf) (Civil.date_of_withHour? hx)

theorem unitIndex_of_mem_byMinute (h : x ∈ r.byMinute c) : r.unitIndex x = r.unitIndex c := by
  rcases mem_byClock h with rfl | ⟨hf, _, -, hx⟩
  · rfl
  · exact unitIndex_eq_of_hour_eq (of_decide_eq_true hf) (Civil.stamp_of_withMinute? hx)

theorem unitIndex_of_mem_bySecond (h : x ∈ r.bySecond c) : r.unitIndex x = r.unitIndex c := by
  rcases mem_byClock h with rfl | ⟨hf, _, -, hx⟩
  · rfl
  · exact unitIndex_eq_of_minute_eq (of_decide_eq_true hf) (Civil.stamp_of_withSecond? hx)

/-! ## 4. All stages -/

theorem mem_stageOf {α : Type} {values : List α} {stage f : Civil → List Civil}
    (h : f ∈ stageOf values stage) : f = stage := by
  unfold stageOf at h
  split at h
  · cases h
  · exact List.mem_singleton.mp h

/-- **Every stage stays in the unit of its input.** -/
theorem unitIndex_of_mem_stages {root : Civil} {dateOnly : Bool} {stage : Civil → List Civil}
    (hskip : r.skip = .leaveOut) (hs : stage ∈ r.stages root dateOnly) (h : x ∈ stage c) :
    r.unitIndex x = r.unitIndex c := by
  unfold stages at hs
  simp only [List.mem_append] at hs
  rcases hs with ((((hs | hs) | hs) | hs) | hs) | hs
  · rw [mem_stageOf hs] at h
    exact unitIndex_of_mem_byMonth h
  · rw [mem_stageOf hs] at h
    exact unitIndex_of_mem_byWeekNumber h
  · rw [mem_stageOf hs] at h
    exact unitIndex_of_mem_byYearDay h
  · rw [mem_stageOf hs] at h
    exact unitIndex_of_mem_byMonthDay hskip h
  · rw [mem_stageOf hs] at h
    exact unitIndex_of_mem_byDay h
  · split at hs
    · cases hs
    · simp only [List.mem_append] at hs
      rcases hs with (hs | hs) | hs
      · rw [mem_stageOf hs] at h
        exact unitIndex_of_mem_byHour h
      · rw [mem_stageOf hs] at h
        exact unitIndex_of_mem_byMinute h
      · rw [mem_stageOf hs] at h
        exact unitIndex_of_mem_bySecond h

/-- What every stage leaves alone, all stages together leave alone. -/
theorem eq_of_mem_foldl_runStage {β : Type} (f : Civil → β) (u : β)
    {stages : List (Civil → List Civil)} (hs : ∀ stage ∈ stages, ∀ c, ∀ x ∈ stage c, f x = f c) :
    ∀ times : List Civil, (∀ c ∈ times, f c = u) → ∀ x ∈ stages.foldl runStage times, f x = u := by
  induction stages with
  | nil => exact fun times ht => ht
  | cons stage stages ih =>
    intro times ht
    refine ih (fun g hg => hs g (List.mem_cons_of_mem _ hg)) (runStage times stage) fun x hx => ?_
    obtain ⟨c, hc, hx⟩ := List.mem_flatMap.mp (mem_of_mem_ascending hx)
    rw [hs stage List.mem_cons_self c x hx]
    exact ht c hc

theorem mem_of_mem_byPosition {times : List Civil} (h : x ∈ r.byPosition times) : x ∈ times := by
  unfold byPosition at h
  split at h
  · exact h
  · obtain ⟨place, -, hx⟩ := List.mem_filterMap.mp (mem_of_mem_ascending h)
    exact mem_of_pick? hx

/-- **The civil times of an increment lie in the unit of the increment.** -/
theorem unitIndex_of_mem_civilCandidates {root period : Civil} {dateOnly : Bool}
    (hskip : r.skip = .leaveOut) (h : x ∈ r.civilCandidates root period dateOnly) :
    r.unitIndex x = r.unitIndex period :=
  eq_of_mem_foldl_runStage r.unitIndex (r.unitIndex period)
    (fun _ hs _ _ hx => unitIndex_of_mem_stages hskip hs hx) [period]
    (fun c hc => by rw [List.mem_singleton.mp hc]) x (mem_of_mem_byPosition h)

end Rule

end Almanac
