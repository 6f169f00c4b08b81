import Almanac.Proofs.Rule.Clocks

/-!
# Days moved forward

A rule may list days that a month does not have. Under the forward policy a monthly rule takes the
first of the next month for them. This file fixes

* **what a place in a month becomes** (`Rule.belongsTo_of_monthDay?`): a date of the month, or the
  first of the next one;
* no later stage moves it on: weekdays only limit a rule that has found days of the month
  (`Rule.eq_of_mem_byDay`), and times of day lie on their day;
* so **a candidate belongs to the month of its increment**
  (`Rule.belongsTo_of_mem_civilCandidates`): it lies in it, or on the first of the next one.
-/

namespace Almanac

variable {c x : Civil}

/-- A date belongs to a month when it lies in it, or on the first of the month after it. -/
def Date.BelongsTo (d : Date) (index : Int) : Prop :=
  d.monthIndex = index ∨ d.monthIndex = index + 1 ∧ d.dayOfMonth = 1

/-- The first of a month is the earliest date of the month. -/
theorem Date.day_le_of_first {first d : Date} (one : first.dayOfMonth = 1)
    (month : first.monthIndex = d.monthIndex) : first.day ≤ d.day := by
  have hfirst := day_of_ofFields? (ofFields?_eq_some_iff.mpr ⟨rfl, rfl, one⟩)
  have hd := day_of_ofFields? (ofFields?_eq_some_iff.mpr ⟨rfl, rfl, rfl⟩ :
    ofFields? d.year d.month d.dayOfMonth = some d)
  have years : first.year = d.year := by
    rw [year_eq_monthIndex_div, year_eq_monthIndex_div, month]
  have months : first.month = d.month := by
    have := first.month_eq_monthIndex_mod
    have := d.month_eq_monthIndex_mod
    omega
  rw [years, months] at hfirst
  omega

/-! ## 1. Stages one after the other -/

/-- A part that is empty changes nothing. -/
theorem leads_stageOf {α : Type} {values : List α} {stage : Civil → List Civil}
    (h : Leads (Rule.stageOf values stage) c x) : x = c ∨ values ≠ [] ∧ x ∈ stage c := by
  unfold Rule.stageOf at h
  split at h
  · exact .inl h
  · rename_i listed
    obtain ⟨b, hb, (same : x = b)⟩ := h
    exact .inr ⟨fun none => listed (by rw [none]; rfl), same ▸ hb⟩

namespace Rule

variable {r : Rule}

/-! ## 2. Days of the month -/

/-- **What a place in a month becomes**: a date of the month, or the first of the next one. -/
theorem belongsTo_of_monthDay? {year : Int} {month : Nat} {place : Int} {d : Date}
    (h : monthDay? .forward year month place = some d) :
    d.BelongsTo (12 * year + (month - 1 : Nat)) := by
  unfold monthDay? at h
  dsimp only at h
  generalize (if 0 < place then place else (daysInMonth year month : Int) + place + 1) = day at h
  split at h
  · obtain ⟨hy, hm, -⟩ := Date.ofFields?_eq_some_iff.mp h
    unfold Date.BelongsTo Date.monthIndex
    rw [hy, hm]
    exact .inl rfl
  · obtain ⟨first, hfirst, hd⟩ := Option.bind_eq_some_iff.mp h
    obtain ⟨hy, hm, one⟩ := Date.ofFields?_eq_some_iff.mp hfirst
    have index : first.monthIndex = 12 * year + (month - 1 : Nat) := by
      unfold Date.monthIndex
      rw [hy, hm]
    rw [← index]
    split at hd
    · refine .inr ⟨Date.monthIndex_of_addMonths? hd, ?_⟩
      have := d.fields_spec
      have := Date.dayOfMonth_of_addMonths? hd
      omega
    · cases hd
      exact .inl rfl

theorem belongsTo_of_mem_byMonthDay {places : List Int} (hf : r.frequency = .monthly)
    (hskip : r.skip = .forward) (h : x ∈ r.byMonthDay places c) :
    x.date.BelongsTo c.date.monthIndex := by
  unfold byMonthDay at h
  dsimp only at h
  split at h
  · obtain ⟨month, hm, hx⟩ := List.mem_flatMap.mp h
    obtain ⟨d, hd, rfl⟩ := List.mem_map.mp hx
    obtain ⟨place, -, hd⟩ := List.mem_filterMap.mp hd
    have same : month = c.date.month := by simpa [hf] using hm
    rw [hskip, same] at hd
    rw [Civil.date_onDate]
    exact belongsTo_of_monthDay? hd
  · rw [(mem_keepIf.mp h).1]
    exact .inl rfl

/-! ## 3. Weekdays and times of day -/

/-- Where days of the month are listed, weekdays only limit them. -/
theorem eq_of_mem_byDay {entries : List DayEntry} (hf : r.frequency = .monthly)
    (listed : r.parts.monthDays ≠ []) (h : x ∈ r.byDay entries c) : x = c := by
  have scope : r.dayScope = .month false := by
    unfold dayScope
    rw [hf]
    exact congrArg DayScope.month (List.isEmpty_eq_false_iff.mpr listed)
  unfold byDay at h
  rw [scope] at h
  rcases mem_daysWithin h with same | ⟨expands, -⟩
  · exact same
  · cases expands

/-- A stage that stays in the unit of its input does so when its part may be empty. -/
theorem unitIndex_of_leads_stageOf {α : Type} {values : List α} {stage : Civil → List Civil}
    (same : ∀ c x, x ∈ stage c → r.unitIndex x = r.unitIndex c)
    (h : Leads (stageOf values stage) c x) : r.unitIndex x = r.unitIndex c := by
  rcases leads_stageOf h with rfl | ⟨-, hx⟩
  · rfl
  · exact same c x hx

/-- A rule that repeats on the day of the month of its seed lists no weekdays. -/
theorem daysFor_eq_nil {root : Civil} (days : r.monthDaysFor root ≠ [])
    (open' : r.parts.monthDays = []) : r.daysFor root = [] := by
  by_cases repeats : r.RepeatsMonthDay
  · exact daysFor_eq_nil_of_repeats repeats root
  · rw [monthDaysFor_of_not repeats] at days
    exact absurd open' days

/-- **A candidate of a monthly rule that moves days forward belongs to the month of its
    increment.** -/
theorem belongsTo_of_mem_civilCandidates {root period : Civil} {dateOnly : Bool}
    (hf : r.frequency = .monthly) (hskip : r.skip = .forward)
    (h : x ∈ r.civilCandidates root period dateOnly) :
    x.date.BelongsTo period.date.monthIndex := by
  have rank : Frequency.daily.rank ≤ r.frequency.rank := by
    rw [hf]
    decide
  obtain ⟨start, only, leads⟩ := (mem_foldl_runStage_iff _).mp (mem_of_mem_byPosition h)
  cases List.mem_singleton.mp only
  unfold stages at leads
  simp only [leads_append, clockStages_eq rank] at leads
  obtain ⟨days, ⟨found, ⟨passed, early, monthDays⟩, weekdays⟩, clock⟩ := leads
  have unit : ∀ c, r.unitIndex c = c.date.monthIndex := fun c => by
    unfold unitIndex
    rw [hf]
    rfl
  have inMonth : passed.date.monthIndex = period.date.monthIndex := by
    obtain ⟨b, ⟨a, months, weeks⟩, yearDays⟩ := early
    rw [← unit, ← unit,
      unitIndex_of_leads_stageOf (fun _ _ => unitIndex_of_mem_byYearDay) yearDays,
      unitIndex_of_leads_stageOf (fun _ _ => unitIndex_of_mem_byWeekNumber) weeks,
      unitIndex_of_leads_stageOf (fun _ _ => unitIndex_of_mem_byMonth) months]
  rw [(RuleParts.leads_clockStages clock).1, ← inMonth]
  rcases leads_stageOf monthDays with rfl | ⟨listed, hfound⟩
  · -- nothing has been moved, and the weekdays are those of the month
    refine .inl ?_
    rw [← unit, ← unit]
    exact unitIndex_of_leads_stageOf (fun _ _ => unitIndex_of_mem_byDay) weekdays
  · have belongs : found.date.BelongsTo passed.date.monthIndex :=
      belongsTo_of_mem_byMonthDay hf hskip hfound
    rcases leads_stageOf weekdays with rfl | ⟨entries, hdays⟩
    · exact belongs
    · rw [eq_of_mem_byDay hf (fun none => entries (daysFor_eq_nil listed none)) hdays]
      exact belongs

end Rule

end Almanac
