import Almanac.Proofs.Ascending
import Almanac.Proofs.Calendar.Clock
import Almanac.Proofs.Rule.Stages
import Almanac.Rule.Candidates

/-!
# Dates pay no heed to the clock

A seed without a time of day leaves out the stages for hour, minute and second. The stages that are
left move dates and leave the clock alone (`DateStage`), and so

* **an increment at any time of a day has the same dates as one at its midnight**
  (`civilCandidates_atMidnight`), whatever the places that pick from them;
* for a seed that is a date, the candidates of an increment are told by the increment's date
  (`candidatesAt_atMidnight`).
-/

namespace Almanac

/-! ## 1. Midnights -/

namespace Civil

/-- The midnight that the day of a civil time begins with. -/
def atMidnight (c : Civil) : Civil := midnight c.date

/-- What a clock shows, the leap second told apart. -/
def clock (c : Civil) : Fin 86400 × Bool := (c.secondOfDay, c.leap)

@[simp] theorem date_atMidnight (c : Civil) : c.atMidnight.date = c.date := date_midnight c.date

theorem stamp_atMidnight (c : Civil) : c.atMidnight.stamp = c.date.day * 86400 :=
  Int.add_zero _

@[simp] theorem atMidnight_onDate (c : Civil) (d : Date) : (c.onDate d).atMidnight = midnight d := by
  rw [atMidnight, date_onDate]

@[simp] theorem onDate_atMidnight (c : Civil) (d : Date) : c.atMidnight.onDate d = midnight d :=
  onDate_midnight c.date d

theorem clock_onDate (c : Civil) (d : Date) : (c.onDate d).clock = c.clock := by
  unfold clock onDate
  rw [secondOfDay_ofDate]
  rfl

/-- Civil times with one clock keep their order when they go back to midnight. -/
theorem rank_atMidnight_le_iff {a b : Civil} (h : a.clock = b.clock) :
    a.atMidnight.rank ≤ b.atMidnight.rank ↔ a.rank ≤ b.rank := by
  obtain ⟨seconds, leap⟩ := Prod.mk.inj h
  have ha := a.secondOfDay_eq
  have hb := b.secondOfDay_eq
  rw [seconds] at ha
  have hm : ∀ c : Civil, c.atMidnight.rank = 2 * (c.stamp / 86400 * 86400) := by
    intro c
    show 2 * c.atMidnight.stamp + 0 = _
    rw [stamp_atMidnight, day_date, Int.add_zero]
  rw [hm, hm]
  unfold rank
  rw [leap]
  omega

end Civil

/-! ## 2. Stages that move dates -/

/-- A stage that moves dates only: it leaves the clock alone, and does the same at midnight. -/
structure DateStage (stage : Civil → List Civil) : Prop where
  clock : ∀ c, ∀ x ∈ stage c, x.clock = c.clock
  midnight : ∀ c, stage c.atMidnight = (stage c).map Civil.atMidnight

namespace DateStage

/-- A stage that puts other dates to the clock. -/
theorem of_onDate {stage : Civil → List Civil} (dates : Date → List Date)
    (h : ∀ c, stage c = (dates c.date).map c.onDate) : DateStage stage where
  clock c x hx := by
    rw [h] at hx
    obtain ⟨d, -, rfl⟩ := List.mem_map.mp hx
    exact c.clock_onDate d
  midnight c := by
    rw [h, h, Civil.date_atMidnight, List.map_map]
    refine List.map_congr_left fun d _ => ?_
    rw [Function.comp_apply, Civil.onDate_atMidnight, Civil.atMidnight_onDate]

/-- A stage that keeps its input or drops it by the date. -/
theorem of_keepIf {stage : Civil → List Civil} (test : Date → Bool)
    (h : ∀ c, stage c = Rule.keepIf (fun c => test c.date) c) : DateStage stage where
  clock c x hx := by
    rw [h] at hx
    rw [(Rule.mem_keepIf.mp hx).1]
  midnight c := by
    rw [h, h]
    unfold Rule.keepIf
    simp only [Civil.date_atMidnight]
    split <;> rfl

end DateStage

namespace Rule

variable (r : Rule)

theorem dateStage_byMonth : DateStage r.byMonth := by
  by_cases hf : r.frequency = .yearly
  · refine .of_onDate (fun d => r.parts.months.filterMap fun month =>
      Date.ofFields? d.year month (min d.dayOfMonth (daysInMonth d.year month))) fun c => ?_
    unfold byMonth
    rw [if_pos hf, List.map_filterMap]
  · refine .of_keepIf (fun d => r.parts.months.contains d.month) fun c => ?_
    unfold byMonth
    rw [if_neg hf]

theorem dateStage_byWeekNumber : DateStage r.byWeekNumber := by
  by_cases hf : r.frequency = .yearly
  · refine .of_onDate (fun d => d.yearBounds?.elim [] fun span =>
      (Date.spaced 1 span.1 span.2).filter fun day =>
        (r.parts.months.isEmpty || day.month = d.month) && r.inListedWeek day) fun c => ?_
    unfold byWeekNumber
    rw [if_pos hf]
    cases c.date.yearBounds? <;> rfl
  · refine .of_keepIf r.inListedWeek fun c => ?_
    unfold byWeekNumber
    rw [if_neg hf]

theorem dateStage_byYearDay : DateStage r.byYearDay := by
  by_cases hf : (r.frequency = .yearly && r.parts.weekNumbers.isEmpty) = true
  · refine .of_onDate (fun d => r.parts.yearDays.filterMap fun place =>
      let ordinal : Int := if 0 < place then place else daysInYear d.year + place + 1
      (Date.ofOrdinal? d.year ordinal.toNat).filter fun day =>
        r.parts.months.isEmpty || day.month = d.month) fun c => ?_
    unfold byYearDay
    dsimp only
    rw [if_pos hf, List.map_filterMap]
  · refine .of_keepIf (fun d => placed r.parts.yearDays d.ordinal (daysInYear d.year)) fun c => ?_
    unfold byYearDay
    dsimp only
    rw [if_neg hf]

theorem dateStage_byMonthDay (places : List Int) : DateStage (r.byMonthDay places) := by
  by_cases hf : ((r.frequency = .monthly || r.frequency = .yearly) &&
      r.parts.weekNumbers.isEmpty && r.parts.yearDays.isEmpty) = true
  · refine .of_onDate (fun d =>
      (if (r.frequency = .yearly && r.parts.months.isEmpty && !r.parts.monthDays.isEmpty) = true
        then List.range' 1 12 else [d.month]).flatMap fun month =>
        places.filterMap (monthDay? r.skip d.year month)) fun c => ?_
    unfold byMonthDay
    dsimp only
    rw [if_pos hf, List.map_flatMap]
  · refine .of_keepIf (fun d => placed places d.dayOfMonth (daysInMonth d.year d.month)) fun c => ?_
    unfold byMonthDay
    dsimp only
    rw [if_neg hf]

theorem dateStage_daysWithin (expands : Bool) (entries : List DayEntry)
    (bounds : Date → Option (Date × Date)) :
    DateStage fun c => daysWithin expands entries (bounds c.date) c := by
  cases expands with
  | true =>
    refine .of_onDate (fun d => (bounds d).elim [] fun span =>
      entries.flatMap fun e => e.datesIn span.1 span.2) fun c => ?_
    unfold daysWithin
    cases bounds c.date <;> rfl
  | false =>
    refine .of_keepIf (fun d => (bounds d).any fun span =>
      (entries.filter (·.day = d.weekday)).any fun e => (e.datesIn span.1 span.2).contains d)
      fun c => ?_
    unfold daysWithin
    cases hb : bounds c.date with
    | none => simp only [keepIf, hb, Option.any_none, Bool.false_eq_true, if_false]
    | some span => simp only [keepIf, hb, Option.any_some, Bool.false_eq_true, if_false]

theorem dateStage_byDay (entries : List DayEntry) : DateStage (r.byDay entries) := by
  unfold byDay
  cases r.dayScope with
  | anyWhere => exact .of_keepIf (fun d => entries.any (·.day = d.weekday)) fun _ => rfl
  | week =>
    refine .of_onDate (fun d =>
      (d.addDays? (-(d.weekday.after r.weekStart : Int))).elim [] fun start =>
        (entries.filterMap fun e => start.addDays? (e.day.after r.weekStart)).filter fun day =>
          r.parts.months.isEmpty || r.parts.months.contains day.month) fun c => ?_
    cases c.date.addDays? (-(c.date.weekday.after r.weekStart : Int)) <;> rfl
  | month expands => exact dateStage_daysWithin expands entries Date.monthBounds?
  | year expands => exact dateStage_daysWithin expands entries Date.yearBounds?

/-- Without the clock, all stages move dates only. -/
theorem dateStage_of_mem_stages {root : Civil} {stage : Civil → List Civil}
    (h : stage ∈ r.stages root true) : DateStage stage := by
  unfold stages at h
  simp only [List.mem_append, if_true, List.not_mem_nil, or_false] at h
  rcases h with (((h | h) | h) | h) | h
  · rw [mem_stageOf h]
    exact r.dateStage_byMonth
  · rw [mem_stageOf h]
    exact r.dateStage_byWeekNumber
  · rw [mem_stageOf h]
    exact r.dateStage_byYearDay
  · rw [mem_stageOf h]
    exact r.dateStage_byMonthDay _
  · rw [mem_stageOf h]
    exact r.dateStage_byDay _

/-! ## 3. Increments at midnight -/

/-- Civil times that all have one clock. -/
def OneClock (times : List Civil) : Prop := ∀ a ∈ times, ∀ b ∈ times, a.clock = b.clock

theorem ascending_atMidnight {times : List Civil} (h : OneClock times) :
    ascending Civil.rank (times.map Civil.atMidnight) =
      (ascending Civil.rank times).map Civil.atMidnight :=
  ascending_map Civil.atMidnight fun a ha b hb => Civil.rank_atMidnight_le_iff (h a ha b hb)

theorem oneClock_flatMap {stage : Civil → List Civil} {times : List Civil} (hs : DateStage stage)
    (h : OneClock times) : OneClock (times.flatMap stage) := by
  intro a ha b hb
  obtain ⟨c, hc, ha⟩ := List.mem_flatMap.mp ha
  obtain ⟨d, hd, hb⟩ := List.mem_flatMap.mp hb
  rw [hs.clock c a ha, hs.clock d b hb]
  exact h c hc d hd

/-- Stages that move dates only do the same at midnight, one after the other. -/
theorem foldl_runStage_atMidnight {stages : List (Civil → List Civil)}
    (hs : ∀ stage ∈ stages, DateStage stage) :
    ∀ times, OneClock times → OneClock (stages.foldl runStage times) ∧
      stages.foldl runStage (times.map Civil.atMidnight) =
        (stages.foldl runStage times).map Civil.atMidnight := by
  induction stages with
  | nil => exact fun times h => ⟨h, rfl⟩
  | cons stage stages ih =>
    intro times h
    have first := hs stage List.mem_cons_self
    have spread := oneClock_flatMap first h
    have run : runStage (times.map Civil.atMidnight) stage =
        (runStage times stage).map Civil.atMidnight := by
      unfold runStage
      rw [← ascending_atMidnight spread, List.flatMap_map, List.map_flatMap]
      congr 2
      funext c
      exact first.midnight c
    rw [List.foldl_cons, List.foldl_cons, run]
    refine ih (fun g hg => hs g (List.mem_cons_of_mem _ hg)) (runStage times stage) ?_
    exact fun a ha b hb => spread a (mem_of_mem_ascending ha) b (mem_of_mem_ascending hb)

theorem pick?_map {α β : Type} (f : α → β) (values : List α) (place : Int) :
    pick? (values.map f) place = (pick? values place).map f := by
  unfold pick?
  simp only [List.getElem?_map, List.length_map]
  split
  · rfl
  · split <;> rfl

/-- **Without the clock, an increment has the dates of its midnight.** -/
theorem civilCandidates_atMidnight (root period : Civil) :
    r.civilCandidates root period.atMidnight true =
      (r.civilCandidates root period true).map Civil.atMidnight := by
  have single : OneClock [period] := fun a ha b hb => by
    rw [List.mem_singleton.mp ha, List.mem_singleton.mp hb]
  obtain ⟨one, eq⟩ := foldl_runStage_atMidnight
    (fun stage (hs : stage ∈ r.stages root true) => r.dateStage_of_mem_stages hs) [period] single
  unfold civilCandidates
  rw [show [period.atMidnight] = [period].map Civil.atMidnight from rfl, eq]
  unfold byPosition
  split
  · rfl
  · rw [← ascending_atMidnight, List.map_filterMap]
    · congr 2
      funext place
      exact pick?_map _ _ place
    · intro a ha b hb
      obtain ⟨_, -, ha⟩ := List.mem_filterMap.mp ha
      obtain ⟨_, -, hb⟩ := List.mem_filterMap.mp hb
      exact one a (mem_of_pick? ha) b (mem_of_pick? hb)

/-- **The candidates of a rule on a date are told by the date of the increment.** -/
theorem candidatesAt_atMidnight (d : Date) (offset : Option Int) (period : Civil) :
    r.candidatesAt (.date d) offset period.atMidnight = r.candidatesAt (.date d) offset period := by
  unfold candidatesAt
  show ascending _ ((r.civilCandidates _ period.atMidnight true).filterMap _) =
    ascending _ ((r.civilCandidates _ period true).filterMap _)
  rw [civilCandidates_atMidnight, List.filterMap_map]
  congr 2
  funext c
  show some (Temporal.date c.atMidnight.date) = some (Temporal.date c.date)
  rw [Civil.date_atMidnight]

end Rule

end Almanac
