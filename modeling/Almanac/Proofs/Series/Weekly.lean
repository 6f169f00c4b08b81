import Almanac.Proofs.Rule.Week
import Almanac.Proofs.Rule.WellFormed
import Almanac.Proofs.Series.Agreement
import Almanac.Proofs.Series.Alike
import Almanac.Proofs.Series.Endings

/-!
# Weekly series

The increments of a weekly rule are seven days apart, or a multiple of that, and each holds the days of
the week that it lies in. This file fixes

* **the increments of a weekly rule** (`Rule.incrementStart?_weekly_iff`): whole weeks from the seed, at
  its second of the day. Only the first one can be a leap second;
* the values that an increment has (`Series.mem_candidates_weekly_iff`);
* **weeks are grouped by the day on which they begin** (`Rule.occurrences_of_weekly`): without months
  and times of day the occurrences are the values on the weekdays of the rule whose week is a multiple
  of the interval behind that of the seed (`Rule.InRhythm`). At the ends of the calendar a week counts
  only if it begins there and still has the weekday of the seed;
* **months limit the increments too** (`Rule.dates_of_months_by_week`): a day is kept if its month is
  listed and so is the month of the day in its week that has the weekday of the seed.
-/

namespace Almanac

/-! ## 1. Values and civil times -/

/-- Without a zone, the value of a civil time is the one of the seed's kind that shows it; a date shows
    the date alone. -/
theorem Temporal.withCivil_eq_some_iff {seed x : Temporal} {policy : GapPolicy} (hs : seed.zone? = none)
    {c : Civil} : seed.withCivil policy c = some x ↔
      x.SameKind seed ∧ if seed.isDateTime then x.localTime = c else x.toDate = c.date := by
  constructor
  · intro h
    refine ⟨sameKind_of_withCivil h, ?_⟩
    cases seed with
    | date _ => exact toDate_of_withCivil hs h
    | floating _ =>
      cases h
      rfl
    | utc _ =>
      cases h
      rfl
    | zoned z => cases hs
  · rintro ⟨⟨kind, -⟩, shows⟩
    cases seed with
    | date _ =>
      cases x <;> cases kind
      have same : (Civil.midnight _).date = c.date := shows
      rw [Civil.date_midnight] at same
      rw [same]
      rfl
    | floating _ =>
      cases x <;> cases kind
      exact congrArg (fun c => some (floating c)) (Eq.symm shows)
    | utc _ =>
      cases x <;> cases kind
      exact congrArg (fun c => some (utc c)) (Eq.symm shows)
    | zoned z => cases hs

namespace Civil

theorem clock_midnight (d : Date) : (midnight d).clock = (0, false) :=
  Prod.ext (secondOfDay_ofDate d 0 false) rfl

/-- So many whole days later it is another date, at the same second of the day. -/
theorem addSeconds?_days_iff {c d : Civil} {days : Nat} : c.addSeconds? (86400 * days : Nat) = some d ↔
    d.date.day = c.date.day + days ∧ d.secondOfDay = c.secondOfDay ∧
      d.leap = (c.leap && decide (days = 0)) := by
  have hc := c.secondOfDay_eq
  have hd := d.secondOfDay_eq
  have zero : decide (((86400 * days : Nat) : Int) = 0) = decide (days = 0) :=
    decide_eq_decide.mpr (by omega)
  rw [addSeconds?_eq_some_iff, stampAfter_eq, zero, day_date, day_date, ← and_assoc]
  refine and_congr_left fun _ => ⟨fun stamp => ⟨?_, Fin.ext ?_⟩, fun ⟨day, second⟩ => ?_⟩
  · omega
  · omega
  · rw [second] at hd
    omega

end Civil

namespace Rule

variable {r : Rule} {origin c : Civil} {k : Nat}

/-! ## 2. Increments -/

theorem mul_interval_eq_zero_iff (r : Rule) {k : Nat} : k * r.interval = 0 ↔ k = 0 := by
  have := r.one_le_interval
  rw [Nat.mul_eq_zero]
  omega

/-- **The increments of a weekly rule** are whole weeks from where it begins. -/
theorem incrementStart?_weekly_iff (weekly : r.frequency = .weekly) :
    r.incrementStart? origin k = some c ↔ c.date.day = origin.date.day + 7 * (k * r.interval : Nat) ∧
      c.secondOfDay = origin.secondOfDay ∧ c.leap = (origin.leap && decide (k = 0)) := by
  have days : r.incrementStart? origin k =
      origin.addSeconds? (86400 * (7 * (k * r.interval)) : Nat) := by
    unfold incrementStart?
    rw [weekly]
    show origin.addSeconds? (604800 * (k * r.interval : Nat)) = _
    congr 1
    omega
  have first : decide (7 * (k * r.interval) = 0) = decide (k = 0) := by
    have none : 7 * (k * r.interval) = 0 ↔ k * r.interval = 0 := by omega
    exact decide_eq_decide.mpr (none.trans r.mul_interval_eq_zero_iff)
  rw [days, Civil.addSeconds?_days_iff, first, Int.natCast_mul]
  exact Iff.rfl

/-- As long as its day is in the calendar, a weekly rule has an increment. -/
theorem exists_incrementStart?_weekly (weekly : r.frequency = .weekly)
    (h : origin.date.day + 7 * (k * r.interval : Nat) ≤ lastDay) :
    ∃ c, r.incrementStart? origin k = some c := by
  have first := origin.date.first_le
  refine ⟨Civil.ofDate ⟨origin.date.day + 7 * (k * r.interval : Nat), by omega, h⟩ origin.secondOfDay
    (origin.leap && decide (k = 0)), (incrementStart?_weekly_iff weekly).mpr ⟨?_, ?_, rfl⟩⟩
  · rw [Civil.date_ofDate]
  · rw [Civil.secondOfDay_ofDate]

/-- The weekday of an increment of a weekly rule is that of where the rule begins, and its week is as
    many weeks later as there are units in between. -/
theorem week_of_incrementStart?_weekly (weekly : r.frequency = .weekly)
    (hc : r.incrementStart? origin k = some c) : c.date.weekday = origin.date.weekday ∧
      c.date.weekBegin r.weekStart = origin.date.weekBegin r.weekStart + 7 * (k * r.interval : Nat) := by
  have day := ((incrementStart?_weekly_iff weekly).mp hc).1
  refine ⟨Date.weekday_of_day_eq day, ?_⟩
  rw [Date.weekBegin_add_weeksSince c.date origin.date, Date.weeksSince_of_day_eq day]

/-- Only the first increment of a weekly rule may lie in a week that begins before the calendar. -/
theorem begins_of_incrementStart?_weekly (weekly : r.frequency = .weekly)
    (hc : r.incrementStart? origin k = some c)
    (later : firstDay ≤ origin.date.weekBegin r.weekStart ∨ 1 ≤ k) :
    firstDay ≤ c.date.weekBegin r.weekStart := by
  have own := (week_of_incrementStart?_weekly weekly hc).2
  have upTo := origin.date.weekBegin_le r.weekStart
  have first := origin.date.first_le
  rw [own]
  rcases later with begins | later
  · omega
  · have : 1 ≤ k * r.interval := Nat.mul_pos later r.one_le_interval
    omega

end Rule

namespace Series

variable {s : Series} {period : Civil} {x : Temporal}

/-- In an increment whose civil times are all leap seconds or all none, no value stands in for another.
    -/
theorem mem_candidates_iff (hs : s.seed.zone? = none)
    (leap : ∀ c ∈ s.rule.civilCandidates s.seed.localTime period !s.seed.isDateTime,
      c.leap = period.leap) :
    x ∈ s.candidates period ↔
      ∃ c ∈ s.rule.civilCandidates s.seed.localTime period !s.seed.isDateTime,
        s.seed.withCivil s.rule.settings.gapPolicy c = some x := by
  have found : ∀ x, x ∈ (s.rule.civilCandidates s.seed.localTime period !s.seed.isDateTime).filterMap
      (s.rule.valueAt? s.seed none) ↔ ∃ c ∈ s.rule.civilCandidates s.seed.localTime period
        !s.seed.isDateTime, s.seed.withCivil s.rule.settings.gapPolicy c = some x := fun x => by
    rw [List.mem_filterMap]
    simp only [Rule.valueAt?_none]
  rw [candidates_of_unzoned hs, ← found]
  unfold Rule.candidatesAt
  refine ⟨mem_of_mem_ascending, fun mem => ?_⟩
  obtain ⟨y, hy, key⟩ : ∃ y ∈ ascending (Comparator.forSeed s.seed).key _,
      (Comparator.forSeed s.seed).key y = (Comparator.forSeed s.seed).key x := exists_mem_ascending mem
  obtain ⟨c, hc, hx⟩ := (found x).mp mem
  obtain ⟨d, hd, hy'⟩ := (found y).mp (mem_of_mem_ascending hy)
  have marks : y.localTime.leap = x.localTime.leap := by
    rw [Temporal.leap_of_withCivil hs hy', Temporal.leap_of_withCivil hs hx, leap c hc, leap d hd]
  rwa [Temporal.eq_of_key_eq hs (Temporal.sameKind_of_withCivil hy') (Temporal.sameKind_of_withCivil hx)
    key marks] at hy

/-- **The values in an increment of a weekly rule**: those of the seed's kind on the days that the rule
    takes in the week, and at the times of day if the seed has one. -/
theorem mem_candidates_weekly_iff (hs : s.seed.zone? = none) (h : s.rule.ByWeekday) :
    x ∈ s.candidates period ↔ x.SameKind s.seed ∧
      s.rule.TakesInWeek s.seed.toDate period.date x.toDate ∧
      (s.seed.isDateTime = true → s.rule.TakesClock period x.localTime) := by
  have all : ∀ c, c ∈ s.rule.civilCandidates s.seed.localTime period (!s.seed.isDateTime) ↔
      s.rule.TakesInWeek s.seed.toDate period.date c.date ∧
        if s.seed.isDateTime then s.rule.TakesClock period c else c.clock = period.clock := fun c => by
    rw [h.mem_civilCandidates_iff]
    cases s.seed.isDateTime <;> rfl
  rw [mem_candidates_iff hs fun c hc => ?_]
  · simp only [all, Temporal.withCivil_eq_some_iff hs]
    cases s.seed.isDateTime with
    | true =>
      simp only [if_true, true_imp_iff]
      constructor
      · rintro ⟨c, taken, kind, rfl⟩
        exact ⟨kind, taken⟩
      · intro ⟨kind, taken⟩
        exact ⟨x.localTime, taken, kind, rfl⟩
    | false =>
      simp only [Bool.false_eq_true, if_false, false_imp_iff, and_true]
      constructor
      · rintro ⟨c, ⟨taken, -⟩, kind, date⟩
        exact ⟨kind, date ▸ taken⟩
      · intro ⟨kind, taken⟩
        refine ⟨period.onDate x.toDate, ⟨?_, period.clock_onDate _⟩, kind, ?_⟩
        · rwa [period.date_onDate]
        · rw [period.date_onDate]
  · have taken := ((all c).mp hc).2
    cases hd : s.seed.isDateTime with
    | true =>
      rw [hd] at taken
      exact taken.leap
    | false =>
      rw [hd] at taken
      exact (Prod.mk.inj taken).2

end Series

namespace Rule

variable {r : Rule} {seed x : Temporal}

/-! ## 3. Grouping by weeks -/

/-- A weekly rule of interval, weekdays and the first day of the week alone. -/
structure PlainByWeekday (r : Rule) : Prop extends r.ByWeekday where
  months : r.parts.months = []
  hours : r.parts.hours = []
  minutes : r.parts.minutes = []
  seconds : r.parts.seconds = []
  skip : r.parts.skip = none
  ending : r.parts.ending = none

/-- **What a weekly rule repeats from a seed on**: values of the seed's kind at its second of the day,
    on the weekdays of the rule, in weeks a multiple of the interval behind that of the seed. A value
    shows a leap second in the week of the seed only. The week begins in the calendar, and its day of
    the seed's weekday is no later than the calendar. -/
structure InRhythm (r : Rule) (seed x : Temporal) : Prop where
  kind : x.SameKind seed
  second : x.localTime.secondOfDay = seed.localTime.secondOfDay
  leap : x.localTime.leap = (seed.localTime.leap && x.toDate.weeksSince seed.toDate r.weekStart = 0)
  fromSeed : (Comparator.forSeed seed).before x seed = false
  weekday : r.TakesWeekday seed.toDate x.toDate
  weeks : (r.interval : Int) ∣ x.toDate.weeksSince seed.toDate r.weekStart
  begins : firstDay ≤ x.toDate.weekBegin r.weekStart
  reached : x.toDate.weekBegin r.weekStart + seed.toDate.weekday.after r.weekStart ≤ lastDay

/-- Weeks do not fall as dates go on. -/
theorem weeksSince_nonneg_of_fromSeed (hs : seed.zone? = none) (hx : x.zone? = none)
    (h : (Comparator.forSeed seed).before x seed = false) :
    0 ≤ x.toDate.weeksSince seed.toDate r.weekStart := by
  have day := Comparator.day_le_of_key_le hs hs hx (Comparator.before_eq_false_iff.mp h)
  unfold Date.weeksSince
  rw [Date.weekBegin_eq, Date.weekBegin_eq]
  omega

namespace PlainByWeekday

variable (h : r.PlainByWeekday)

include h

/-- An increment that lies whole weeks from the seed has the days of its week at its clock. -/
theorem mem_candidates_iff (hs : seed.zone? = none) {c : Civil} {k : Nat}
    (hc : r.incrementStart? seed.localTime k = some c) :
    x ∈ (r.occurrences seed).candidates c ↔ x.SameKind seed ∧
      r.TakesInWeek seed.toDate c.date x.toDate ∧ x.localTime.clock = c.clock := by
  have clock := takesClock_iff_of_none (r := r) (c := c) (x := x.localTime) h.hours h.minutes h.seconds
  rw [Series.mem_candidates_weekly_iff (s := r.occurrences seed) hs h.toByWeekday]
  refine and_congr_right fun kind => and_congr_right fun _ => ?_
  show (seed.isDateTime = true → r.TakesClock c x.localTime) ↔ _
  rw [clock]
  cases seed with
  | date d =>
    -- dates are read at midnight, and so are the increments that lie whole weeks from one
    obtain ⟨-, second, leap⟩ := (incrementStart?_weekly_iff h.weekly).mp hc
    have seedClock : (Temporal.date d).localTime.clock = (0, false) := Civil.clock_midnight d
    have own : x.localTime.clock = (0, false) := by
      cases x <;> cases kind.1
      exact Civil.clock_midnight _
    obtain ⟨first, mark⟩ := Prod.mk.inj seedClock
    refine ⟨fun _ => own.trans (Prod.ext ?_ ?_), fun _ => nofun⟩
    · exact first.symm.trans second.symm
    · show false = c.leap
      rw [leap, mark, Bool.false_and]
  | floating _ => exact ⟨fun own => own rfl, fun own _ => own⟩
  | utc _ => exact ⟨fun own => own rfl, fun own _ => own⟩
  | zoned z => cases hs

omit h in
/-- So many units behind the seed is the week of the seed only for the first increment. -/
theorem decide_weeks {k : Nat} {weeks : Int} (h : weeks = (k * r.interval : Nat)) :
    decide (weeks = 0) = decide (k = 0) := by
  rw [h]
  exact decide_eq_decide.mpr (Int.natCast_eq_zero.trans r.mul_interval_eq_zero_iff)

/-- A value in an increment, from the seed on, is in the rhythm of the rule. -/
theorem inRhythm_of_mem_candidates (hs : seed.zone? = none) {c : Civil} {k : Nat}
    (hc : r.incrementStart? seed.localTime k = some c) (hx : x ∈ (r.occurrences seed).candidates c)
    (fromSeed : (Comparator.forSeed seed).before x seed = false) : r.InRhythm seed x := by
  obtain ⟨kind, taken, clock⟩ := (h.mem_candidates_iff hs hc).mp hx
  obtain ⟨own, mark⟩ := Prod.mk.inj clock
  obtain ⟨-, second, leap⟩ := (incrementStart?_weekly_iff h.weekly).mp hc
  obtain ⟨same, apart⟩ := week_of_incrementStart?_weekly h.weekly hc
  have weeks : x.toDate.weeksSince seed.toDate r.weekStart = (k * r.interval : Nat) := by
    have := Date.weekBegin_add_weeksSince x.toDate seed.toDate r.weekStart
    have apart : c.date.weekBegin r.weekStart = seed.toDate.weekBegin r.weekStart + _ := apart
    rw [taken.week] at this
    omega
  exact
    { kind := kind
      second := own.trans second
      leap := by rw [mark, leap, decide_weeks weeks]
      fromSeed := fromSeed
      weekday := taken.weekday
      weeks := by
        rw [weeks, Int.natCast_mul]
        exact Int.dvd_mul_left _ _
      begins := taken.week ▸ taken.begins
      reached := by
        have last := c.date.le_last
        have same : c.date.weekday = seed.toDate.weekday := same
        rw [taken.week, ← same]
        unfold Date.weekBegin
        omega }

/-- **A value in the rhythm of the rule is in an increment.** -/
theorem exists_mem_candidates_of_inRhythm (hs : seed.zone? = none) (rhythm : r.InRhythm seed x) :
    ∃ k c, r.incrementStart? seed.localTime k = some c ∧ x ∈ (r.occurrences seed).candidates c := by
  have positive := r.one_le_interval
  have nonneg := weeksSince_nonneg_of_fromSeed (r := r) hs (rhythm.kind.2.trans hs) rhythm.fromSeed
  obtain ⟨m, hm⟩ := rhythm.weeks
  have forward : 0 ≤ m := by
    rw [hm] at nonneg
    exact Int.nonneg_of_mul_nonneg_right nonneg (by omega)
  obtain ⟨k, rfl⟩ := Int.eq_ofNat_of_zero_le forward
  have weeks : x.toDate.weeksSince seed.toDate r.weekStart = (k * r.interval : Nat) := by
    rw [hm, Int.natCast_mul, Int.mul_comm]
  have apart := Date.weekBegin_add_weeksSince x.toDate seed.toDate r.weekStart
  rw [weeks] at apart
  have last := rhythm.reached
  obtain ⟨c, hc⟩ : ∃ c, r.incrementStart? seed.localTime k = some c := by
    refine exists_incrementStart?_weekly h.weekly ?_
    show seed.toDate.day + _ ≤ lastDay
    rw [apart] at last
    unfold Date.weekBegin at last
    omega
  obtain ⟨-, second, leap⟩ := (incrementStart?_weekly_iff h.weekly).mp hc
  have week : x.toDate.weekBegin r.weekStart = c.date.weekBegin r.weekStart :=
    apart.trans (week_of_incrementStart?_weekly h.weekly hc).2.symm
  refine ⟨k, c, hc, (h.mem_candidates_iff hs hc).mpr ⟨rhythm.kind, ?_, ?_⟩⟩
  · exact ⟨week, week ▸ rhythm.begins, rhythm.weekday, fun listed => absurd h.months listed⟩
  · refine Prod.ext (rhythm.second.trans second.symm) (rhythm.leap.trans ?_)
    rw [decide_weeks weeks]
    exact leap.symm

/-- An increment whose week begins in the calendar has a value, unless it is the last one. -/
theorem candidates_ne_nil (hs : seed.zone? = none) {c d : Civil} {k : Nat}
    (hc : r.incrementStart? seed.localTime k = some c)
    (hd : r.incrementStart? seed.localTime (k + 1) = some d)
    (begins : firstDay ≤ c.date.weekBegin r.weekStart) : (r.occurrences seed).candidates c ≠ [] := by
  obtain ⟨weekday, taken⟩ := r.exists_takesWeekday seed.toDate
  -- the weeks of two increments do not overlap, so all days of the earlier one are in the calendar
  have room : c.date.weekBegin r.weekStart + 7 ≤ lastDay := by
    have next := (week_of_incrementStart?_weekly h.weekly hd).2
    have own := (week_of_incrementStart?_weekly h.weekly hc).2
    have upTo := d.date.weekBegin_le r.weekStart
    have last := d.date.le_last
    have positive := r.one_le_interval
    rw [Nat.succ_mul] at next
    omega
  obtain ⟨day, named, week⟩ := Date.exists_weekday begins room weekday
  obtain ⟨x, hx⟩ : ∃ x, seed.withCivil r.settings.gapPolicy (c.onDate day) = some x :=
    Option.isSome_iff_exists.mp (Temporal.withCivil_isSome hs _)
  have date : x.toDate = day := (Temporal.toDate_of_withCivil hs hx).trans (c.date_onDate day)
  refine List.ne_nil_of_mem ((Series.mem_candidates_weekly_iff (s := r.occurrences seed) hs
    h.toByWeekday).mpr ⟨Temporal.sameKind_of_withCivil hx, ⟨date ▸ week, begins, taken _ (date ▸ named),
      fun listed => absurd h.months listed⟩, fun time => ?_⟩)
  have time : seed.isDateTime = true := time
  have shows := ((Temporal.withCivil_eq_some_iff hs).mp hx).2
  rw [if_pos time] at shows
  refine (takesClock_iff_of_none h.hours h.minutes h.seconds).mpr ?_
  rw [shows]
  exact c.clock_onDate day

/-- If the week of the seed begins before the calendar, its increment is empty. -/
theorem ahead_of_incomplete (hs : seed.zone? = none)
    (incomplete : seed.toDate.weekBegin r.weekStart < firstDay) :
    (r.occurrences seed).candidates seed.localTime = [] ∧
      (r.occurrences seed).ahead 0 0 = (r.occurrences seed).ahead 1 1 := by
  have zero := r.incrementStart?_zero seed.localTime
  have none : (r.occurrences seed).candidates seed.localTime = [] :=
    List.eq_nil_iff_forall_not_mem.mpr fun x hx => by
      have begins := ((h.mem_candidates_iff hs zero).mp hx).2.1.begins
      exact absurd begins (Int.not_le.mpr incomplete)
  refine ⟨none, ?_⟩
  rw [Series.ahead_of_some r.settings.guard?_zero
    ((congrArg (r.incrementStart? · 0) (Series.origin_of_unzoned hs)).trans zero), none]
  unfold Series.emptiesAfter
  rw [none, Series.reading?_of_stepZone?_eq_none (Series.stepZone?_of_unzoned hs)]
  rfl

/-- **No guard cuts a weekly series off**, unless one empty increment is one too many and the week of the
    seed begins before the calendar. -/
theorem mem_ahead_iff (hs : seed.zone? = none)
    (lenient : firstDay ≤ seed.toDate.weekBegin r.weekStart ∨ r.settings.emptyLimit ≠ 1) :
    x ∈ (r.occurrences seed).ahead 0 0 ↔ ∃ k c, r.incrementStart? seed.localTime k = some c ∧
      x ∈ (r.occurrences seed).candidates c := by
  have unbroken : ∀ k, (firstDay ≤ seed.toDate.weekBegin r.weekStart ∨ 1 ≤ k) → ∀ j c d, k ≤ j →
      r.incrementStart? seed.localTime j = some c → r.incrementStart? seed.localTime (j + 1) = some d →
      (r.occurrences seed).candidates c ≠ [] := fun k later j c d le hc hd =>
    h.candidates_ne_nil hs hc hd <|
      begins_of_incrementStart?_weekly h.weekly hc (later.imp_right fun le' => Nat.le_trans le' le)
  have origin : (r.occurrences seed).origin = seed.localTime := Series.origin_of_unzoned hs
  rw [← origin] at unbroken ⊢
  by_cases begins : firstDay ≤ seed.toDate.weekBegin r.weekStart
  · rw [Series.mem_ahead_iff_of_unbroken r.settings.guard?_zero (unbroken 0 (.inl begins))]
    exact exists_congr fun k => exists_congr fun c => and_iff_right k.zero_le
  · obtain ⟨none, same⟩ := h.ahead_of_incomplete hs (Int.not_le.mp begins)
    have go : r.settings.guard?.any (fun limit => limit ≤ 1) = false := by
      rw [Series.guard?_any]
      refine decide_eq_false fun ⟨positive, reached⟩ => ?_
      exact lenient.resolve_left begins (by omega)
    rw [same, Series.mem_ahead_iff_of_unbroken go (unbroken 1 (.inr (Nat.le_refl 1)))]
    refine exists_congr fun k => exists_congr fun c => and_iff_right_of_imp fun ⟨hc, hx⟩ => ?_
    refine Nat.one_le_iff_ne_zero.mpr fun zero => ?_
    rw [zero, Rule.incrementStart?_zero] at hc
    cases hc
    rw [origin] at hx
    exact List.ne_nil_of_mem hx none

/-- **The occurrences are the values in the rhythm of the rule.** -/
theorem mem_toList_iff (hs : seed.zone? = none)
    (lenient : firstDay ≤ seed.toDate.weekBegin r.weekStart ∨ r.settings.emptyLimit ≠ 1) :
    x ∈ (r.occurrences seed).toList ↔ r.InRhythm seed x := by
  have skip : r.skip = .leaveOut := by
    unfold Rule.skip
    rw [h.skip]
    rfl
  rw [occurrences_of_none h.ending, Series.mem_course_iff (s := r.occurrences seed) hs skip,
    h.mem_ahead_iff hs lenient]
  constructor
  · rintro ⟨⟨k, c, hc, hx⟩, fromSeed⟩
    exact h.inRhythm_of_mem_candidates hs hc hx fromSeed
  · exact fun rhythm => ⟨h.exists_mem_candidates_of_inRhythm hs rhythm, rhythm.fromSeed⟩

/-- A guard that takes no empty increment ends the walk in a first week that begins before the calendar.
    -/
theorem toList_eq_nil (hs : seed.zone? = none) (strict : r.settings.emptyLimit = 1)
    (incomplete : seed.toDate.weekBegin r.weekStart < firstDay) : (r.occurrences seed).toList = [] := by
  have guarded : r.settings.guard?.any (fun limit => limit ≤ 1) = true := by
    rw [Series.guard?_any, strict]
    rfl
  rw [occurrences_of_none h.ending]
  unfold Series.course
  rw [(h.ahead_of_incomplete hs incomplete).2, Series.ahead_of_guard guarded]
  rfl

end PlainByWeekday

/-- **Weeks are grouped by the day on which they begin.** On a seed without a zone, a weekly rule of
    interval, weekdays and the first day of the week alone has, in ascending order, the values in its
    rhythm. Neither the settings nor the place of the seed in its week make a difference, but for one
    case: when the week of the seed begins before the calendar and a single empty increment ends a walk,
    there is no occurrence. -/
theorem occurrences_of_weekly (r : Rule) (h : r.PlainByWeekday) {seed : Temporal}
    (hs : seed.zone? = none) :
    ((r.occurrences seed).toList.Pairwise fun a b => (Comparator.forSeed seed).before a b = true) ∧
      (firstDay ≤ seed.toDate.weekBegin r.weekStart ∨ r.settings.emptyLimit ≠ 1 →
        ∀ x, x ∈ (r.occurrences seed).toList ↔ r.InRhythm seed x) ∧
      (r.settings.emptyLimit = 1 → seed.toDate.weekBegin r.weekStart < firstDay →
        (r.occurrences seed).toList = []) := by
  refine ⟨?_, fun lenient x => h.mem_toList_iff hs lenient, h.toList_eq_nil hs⟩
  have ascends : ((r.occurrences seed).course 0).Pairwise fun a b =>
      (Comparator.forSeed seed).key a < (Comparator.forSeed seed).key b := pairwise_climb _ _ _
  rw [occurrences_of_none h.ending]
  exact ascends.imp Comparator.before_iff.mpr

/-- Tuesdays and Sundays of every second week, where weeks begin on Sundays. -/
def tuesdaysAndSundays : Rule where
  frequency := .weekly
  parts := { RuleParts.none with
    interval := some 2, weekStart := some .sunday, days := [.every .tuesday, .every .sunday] }
  settings := .standard
  valid := by decide

/-- From Tuesday, 5 August 1997 on the first Sunday is that of 17 August. -/
theorem occurrences_of_tuesdaysAndSundays :
    let seed : Temporal := .date ⟨729606, by decide, by decide⟩
    tuesdaysAndSundays.PlainByWeekday ∧ seed.zone? = none ∧
      ((tuesdaysAndSundays.occurrences seed).toList.Pairwise fun a b =>
        (Comparator.forSeed seed).before a b = true) ∧
      .date ⟨729618, by decide, by decide⟩ ∈ (tuesdaysAndSundays.occurrences seed).toList ∧
      .date ⟨729611, by decide, by decide⟩ ∉ (tuesdaysAndSundays.occurrences seed).toList := by
  intro seed
  have plain : tuesdaysAndSundays.PlainByWeekday :=
    ⟨⟨rfl, rfl, rfl, rfl, rfl⟩, rfl, rfl, rfl, rfl, rfl, rfl⟩
  have unzoned : seed.zone? = none := rfl
  have all := occurrences_of_weekly tuesdaysAndSundays plain unzoned
  refine ⟨plain, rfl, all.1, (all.2.1 (.inl (by decide)) _).mpr ?_, fun listed => ?_⟩
  · exact
      { kind := ⟨rfl, rfl⟩
        second := by decide
        leap := by decide
        fromSeed := by decide
        weekday := by decide
        weeks := by decide
        begins := by decide
        reached := by decide }
  · exact absurd ((all.2.1 (.inl (by decide)) _).mp listed).weeks (by decide)

/-- What a calendar without ends would repeat: values at the seed's time of day, leap second and all, on
    the weekdays of the rule, in weeks a multiple of the interval behind that of the seed. -/
structure InGroup (r : Rule) (seed x : Temporal) : Prop where
  kind : x.SameKind seed
  clock : x.localTime.clock = seed.localTime.clock
  fromSeed : (Comparator.forSeed seed).before x seed = false
  weekday : r.TakesWeekday seed.toDate x.toDate
  weeks : (r.interval : Int) ∣ x.toDate.weeksSince seed.toDate r.weekStart

/-- Mondays and Sundays of every week, with a limit to empty increments. -/
def mondaysAndSundays (limit : Int) : Rule where
  frequency := .weekly
  parts := { RuleParts.none with days := [.every .monday, .every .sunday] }
  settings := { Settings.standard with emptyLimit := limit }
  valid := by decide

/-- At the ends of the calendar and for a leap second the groups have gaps. The calendar begins on a
    Thursday, so from its second day on the first Sunday is left out, and with a limit of one the Monday
    after it is, too. It ends on a Monday, which is left out if the seed is on a Tuesday. A week after a
    leap second there is none. -/
theorem groups_of_weeks_have_gaps :
    (let seed : Temporal := .date ⟨firstDay + 1, by decide, by decide⟩
      let sunday : Temporal := .date ⟨firstDay + 3, by decide, by decide⟩
      let monday : Temporal := .date ⟨firstDay + 4, by decide, by decide⟩
      ((mondaysAndSundays 1000).InGroup seed sunday ∧
        sunday ∉ ((mondaysAndSundays 1000).occurrences seed).toList) ∧
      (mondaysAndSundays 1).InGroup seed monday ∧
        monday ∉ ((mondaysAndSundays 1).occurrences seed).toList) ∧
    (let seed : Temporal := .date ⟨lastDay - 6, by decide, by decide⟩
      let monday : Temporal := .date ⟨lastDay, by decide, by decide⟩
      (mondaysAndSundays 1000).InGroup seed monday ∧
        monday ∉ ((mondaysAndSundays 1000).occurrences seed).toList) ∧
    let seed : Temporal := .floating ⟨63650534399, true, by decide, by decide⟩
    let later : Temporal := .floating ⟨63651139199, true, by decide, by decide⟩
    (mondaysAndSundays 1000).InGroup seed later ∧
      later ∉ ((mondaysAndSundays 1000).occurrences seed).toList := by
  have plain : ∀ limit, (mondaysAndSundays limit).PlainByWeekday := fun limit =>
    ⟨⟨rfl, rfl, rfl, rfl, rfl⟩, rfl, rfl, rfl, rfl, rfl, rfl⟩
  refine ⟨⟨⟨⟨⟨rfl, rfl⟩, by decide, by decide, by decide, by decide⟩, fun listed => ?_⟩,
    ⟨⟨rfl, rfl⟩, by decide, by decide, by decide, by decide⟩, fun listed => ?_⟩,
    ⟨⟨⟨rfl, rfl⟩, by decide, by decide, by decide, by decide⟩, fun listed => ?_⟩,
    ⟨⟨rfl, rfl⟩, by decide, by decide, by decide, by decide⟩, fun listed => ?_⟩
  · exact absurd (((plain 1000).mem_toList_iff rfl (.inr (by decide))).mp listed).begins (by decide)
  · rw [(plain 1).toList_eq_nil rfl rfl (by decide)] at listed
    cases listed
  · exact absurd (((plain 1000).mem_toList_iff rfl (.inl (by decide))).mp listed).reached (by decide)
  · exact absurd (((plain 1000).mem_toList_iff rfl (.inl (by decide))).mp listed).leap (by decide)

/-! ## 4. Months -/

/-- The rule with its months left out. -/
def withoutMonths (r : Rule) : Rule where
  frequency := r.frequency
  parts := { r.parts with months := [] }
  settings := r.settings
  valid := RuleParts.fault?_eq_none_iff.mpr
    { RuleParts.fault?_eq_none_iff.mp r.valid with months := fun _ mem => absurd mem List.not_mem_nil }

/-- The rule with its skip policy left out. -/
def withoutSkip (r : Rule) : Rule where
  frequency := r.frequency
  parts := { r.parts with skip := none }
  settings := r.settings
  valid := RuleParts.fault?_eq_none_iff.mpr
    { RuleParts.fault?_eq_none_iff.mp r.valid with skip := fun skips => absurd rfl skips }

/-- A skip policy has no say about weeks. -/
theorem alike_withoutSkip (weekly : r.frequency = .weekly) : r.withoutSkip.Alike r where
  frequency := rfl
  interval := rfl
  ending := rfl
  settings := rfl
  civilCandidates root period dateOnly := by
    have same : r.withoutSkip.byMonthDay = r.byMonthDay := by
      funext places c
      unfold byMonthDay
      rw [show r.withoutSkip.frequency = r.frequency from rfl, weekly]
      rfl
    unfold civilCandidates stages
    rw [show r.withoutSkip.monthDaysFor = r.monthDaysFor from rfl, same]
    rfl

/-- With months, a week has the days of the month if the increment lies in a listed month, too. -/
theorem takesInWeek_iff_withoutMonths (listed : r.parts.months ≠ []) {root period d : Date} :
    r.TakesInWeek root period d ↔ r.withoutMonths.TakesInWeek root period d ∧
      r.inListedMonth period = true ∧ r.inListedMonth d = true := by
  unfold inListedMonth
  rw [List.contains_iff_mem, List.contains_iff_mem]
  constructor
  · intro taken
    exact ⟨⟨taken.week, taken.begins, taken.weekday, fun none => absurd rfl none⟩, taken.months listed⟩
  · intro ⟨taken, months⟩
    exact ⟨taken.week, taken.begins, taken.weekday, fun _ => months⟩

theorem takesClock_iff_withoutMonths {c x : Civil} :
    r.TakesClock c x ↔ r.withoutMonths.TakesClock c x :=
  ⟨fun h => ⟨h.hour, h.minute, h.second, h.leap⟩, fun h => ⟨h.hour, h.minute, h.second, h.leap⟩⟩

/-- Whether the month of a date is listed, and that of the day in its week with the weekday of the seed.
    -/
def listsWeekOf (r : Rule) (seed d : Date) : Bool :=
  r.inListedMonth d && (d.onWeekdayOf? seed r.weekStart).any r.inListedMonth

section Months

variable (h : r.ByWeekday) (listed : r.parts.months ≠ []) (hs : seed.zone? = none)

include h hs

/-- The day of the week of a value that has the weekday of the seed is the date of its increment. -/
theorem onWeekdayOf?_of_mem_candidates {start stop : Option Temporal} {c : Civil} {k : Nat}
    (hc : r.incrementStart? seed.localTime k = some c)
    (hx : x ∈ (Series.mk r seed start stop).candidates c) :
    x.toDate.onWeekdayOf? seed.toDate r.weekStart = some c.date := by
  have taken := ((Series.mem_candidates_weekly_iff (s := ⟨r, seed, start, stop⟩) hs h).mp hx).2.1
  exact Date.onWeekdayOf?_eq_some taken.week (week_of_incrementStart?_weekly h.weekly hc).1

include listed

/-- **With months, an increment keeps what the rule without them has there**, by the month of the day and
    the month of the increment. -/
theorem exists_mem_candidates_iff_withoutMonths (start stop : Option Temporal) :
    (∃ k c, r.incrementStart? seed.localTime k = some c ∧
        x ∈ (Series.mk r seed start stop).candidates c) ↔
      (∃ k c, r.withoutMonths.incrementStart? seed.localTime k = some c ∧
        x ∈ (Series.mk r.withoutMonths seed start stop).candidates c) ∧
      r.listsWeekOf seed.toDate x.toDate = true := by
  have h' : r.withoutMonths.ByWeekday :=
    ⟨h.weekly, h.weekNumbers, h.yearDays, h.monthDays, h.positions⟩
  have members : ∀ c, x ∈ (Series.mk r seed start stop).candidates c ↔
      x ∈ (Series.mk r.withoutMonths seed start stop).candidates c ∧
        r.inListedMonth c.date = true ∧ r.inListedMonth x.toDate = true := fun c => by
    rw [Series.mem_candidates_weekly_iff (s := ⟨r, seed, start, stop⟩) hs h,
      Series.mem_candidates_weekly_iff (s := ⟨r.withoutMonths, seed, start, stop⟩) hs h',
      takesInWeek_iff_withoutMonths listed, takesClock_iff_withoutMonths]
    constructor
    · intro ⟨kind, ⟨taken, months⟩, clock⟩
      exact ⟨⟨kind, taken, clock⟩, months⟩
    · intro ⟨⟨kind, taken, clock⟩, months⟩
      exact ⟨kind, ⟨taken, months⟩, clock⟩
  unfold listsWeekOf
  rw [Bool.and_eq_true]
  constructor
  · intro ⟨k, c, hc, hx⟩
    obtain ⟨hx', period, day⟩ := (members c).mp hx
    rw [onWeekdayOf?_of_mem_candidates h hs hc hx, Option.any_some]
    exact ⟨⟨k, c, hc, hx'⟩, day, period⟩
  · intro ⟨⟨k, c, hc, hx⟩, day, period⟩
    have anchor : x.toDate.onWeekdayOf? seed.toDate r.weekStart = some c.date :=
      onWeekdayOf?_of_mem_candidates h' hs hc hx
    rw [anchor, Option.any_some] at period
    exact ⟨k, c, hc, (members c).mpr ⟨hx, period, day⟩⟩

/-- Without a skip policy, the months limit what a window holds. -/
theorem dates_of_months_unskipped (hskip : r.skip = .leaveOut) (hcount : r.parts.count? = none)
    (hguard : r.settings.emptyLimit ≤ 0) {start : Temporal} (hstart : start.zone? = none)
    (stop : Temporal) : r.dates seed start stop none =
      (r.withoutMonths.dates seed start stop none).filter
        fun x => r.listsWeekOf seed.toDate x.toDate := by
  have guard : r.settings.guard? = none := if_neg (Int.not_lt.mpr hguard)
  have kept : ∀ r : Rule, (r.within seed start stop).LastKept := fun r =>
    Series.lastKept_of _ fun _ _ => .inr hs
  have open' : ∀ value ∈ some start, value.zone? = none := fun value h => by
    cases h
    exact hstart
  show (r.within seed start stop).toList = (r.withoutMonths.within seed start stop).toList.filter _
  refine eq_of_ascending (Series.pairwise_toList (kept r) hcount)
    ((Series.pairwise_toList (kept r.withoutMonths) hcount).sublist List.filter_sublist) fun x => ?_
  rw [List.mem_filter,
    Series.mem_toList_iff_of_unzoned (s := r.within seed start stop) hs hskip guard hcount open',
    Series.mem_toList_iff_of_unzoned (s := r.withoutMonths.within seed start stop) hs hskip guard hcount
      open']
  have increments :=
    exists_mem_candidates_iff_withoutMonths (x := x) h listed hs (some start) (some stop)
  have origin : (r.within seed start stop).origin = seed.localTime := Series.origin_of_unzoned hs
  have origin' : (r.withoutMonths.within seed start stop).origin = seed.localTime :=
    Series.origin_of_unzoned hs
  rw [origin, origin']
  exact (and_congr_left fun _ => increments).trans and_right_comm

end Months

/-- **Months limit a weekly rule day by day and week by week.** On a seed and from a start without a
    zone, a weekly rule with months, with neither a number of occurrences nor a guard, lists what the
    same rule without the months lists, as far as the month of the day is listed and so is the month of
    the day in its week that has the weekday of the seed. So its days are told by their months alone
    just when no day in a listed month has that day of its week in another month that is not. -/
theorem dates_of_months_by_week (r : Rule) (h : r.ByWeekday) (listed : r.parts.months ≠ [])
    (hcount : r.parts.count? = none) (hguard : r.settings.emptyLimit ≤ 0) {seed start : Temporal}
    (hs : seed.zone? = none) (hstart : start.zone? = none) (stop : Temporal) :
    (r.dates seed start stop none = (r.withoutMonths.dates seed start stop none).filter
      fun x => r.listsWeekOf seed.toDate x.toDate) ∧
    (r.dates seed start stop none = ((r.withoutMonths.dates seed start stop none).filter
        fun x => r.inListedMonth x.toDate) ↔
      ∀ x ∈ r.withoutMonths.dates seed start stop none, r.inListedMonth x.toDate = true →
        (x.toDate.onWeekdayOf? seed.toDate r.weekStart).any r.inListedMonth = true) := by
  have h' : r.withoutSkip.ByWeekday :=
    ⟨h.weekly, h.weekNumbers, h.yearDays, h.monthDays, h.positions⟩
  have without : r.withoutMonths.dates seed start stop none =
      r.withoutSkip.withoutMonths.dates seed start stop none :=
    (alike_withoutSkip (r := r.withoutMonths) h.weekly).dates_eq _ _ _ _
  have all : r.dates seed start stop none = (r.withoutMonths.dates seed start stop none).filter
      fun x => r.listsWeekOf seed.toDate x.toDate := by
    rw [(alike_withoutSkip h.weekly).dates_eq, without]
    exact dates_of_months_unskipped h' listed hs rfl hcount hguard hstart stop
  refine ⟨all, ?_⟩
  have twice : ((r.withoutMonths.dates seed start stop none).filter
      fun x => r.listsWeekOf seed.toDate x.toDate) =
      ((r.withoutMonths.dates seed start stop none).filter fun x => r.inListedMonth x.toDate).filter
        fun x => (x.toDate.onWeekdayOf? seed.toDate r.weekStart).any r.inListedMonth := by
    rw [List.filter_filter]
    exact congrArg (List.filter · _) (funext fun x => Bool.and_comm _ _)
  rw [all, twice, List.filter_eq_self]
  simp only [List.mem_filter, and_imp]

/-- Mondays in January, with no limit to empty increments. -/
def mondaysInJanuary : Rule where
  frequency := .weekly
  parts := { RuleParts.none with months := [1], days := [.every .monday] }
  settings := { Settings.standard with emptyLimit := 0 }
  valid := by decide

/-- From Sunday, 5 January 2025 until the end of March. -/
theorem dates_of_mondaysInJanuary :
    let seed : Temporal := .date ⟨739621, by decide, by decide⟩
    let stop : Temporal := .date ⟨739706, by decide, by decide⟩
    (mondaysInJanuary.ByWeekday ∧ mondaysInJanuary.parts.months ≠ [] ∧
        mondaysInJanuary.parts.count? = none ∧ mondaysInJanuary.settings.emptyLimit ≤ 0 ∧
        seed.zone? = none) ∧
      (mondaysInJanuary.dates seed seed stop none =
        (mondaysInJanuary.withoutMonths.dates seed seed stop none).filter
          fun x => mondaysInJanuary.listsWeekOf seed.toDate x.toDate) ∧
      (mondaysInJanuary.dates seed seed stop none =
        ((mondaysInJanuary.withoutMonths.dates seed seed stop none).filter
          fun x => mondaysInJanuary.inListedMonth x.toDate) ↔
        ∀ x ∈ mondaysInJanuary.withoutMonths.dates seed seed stop none,
          mondaysInJanuary.inListedMonth x.toDate = true →
            (x.toDate.onWeekdayOf? seed.toDate mondaysInJanuary.weekStart).any
              mondaysInJanuary.inListedMonth = true) :=
  have plain : mondaysInJanuary.ByWeekday := ⟨rfl, rfl, rfl, rfl, rfl⟩
  ⟨⟨plain, by decide, rfl, Int.le_refl 0, rfl⟩,
    dates_of_months_by_week mondaysInJanuary plain (by decide) rfl (Int.le_refl 0) rfl rfl _⟩

/-- **A Monday in January is left out** when the Sunday of its week, the weekday of the seed, lies in
    February: 27 January 2025 is listed without the months, and not with them. -/
theorem monday_in_january_left_out :
    let seed : Temporal := .date ⟨739621, by decide, by decide⟩
    let stop : Temporal := .date ⟨739706, by decide, by decide⟩
    let monday : Temporal := .date ⟨739643, by decide, by decide⟩
    (mondaysInJanuary.frequency = .weekly ∧ mondaysInJanuary.parts.positions = [] ∧
        mondaysInJanuary.parts.weekNumbers = [] ∧ mondaysInJanuary.parts.yearDays = [] ∧
        mondaysInJanuary.parts.monthDays = [] ∧ mondaysInJanuary.parts.count? = none ∧
        mondaysInJanuary.settings.emptyLimit ≤ 0) ∧
      monday ∉ mondaysInJanuary.dates seed seed stop none ∧
      monday ∈ (mondaysInJanuary.withoutMonths.dates seed seed stop none).filter
        fun x => mondaysInJanuary.inListedMonth x.toDate := by
  decide +kernel

end Rule

end Almanac
