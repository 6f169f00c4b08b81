import Almanac.Proofs.Rule.Forward
import Almanac.Proofs.Series.Endings
import Almanac.Proofs.Series.Window
import Almanac.Zone.Table

/-!
# Skipping ahead

A walk through a window does not begin at the seed, but at the last increment before the window. It
ought to find what a search from the seed would find in the window (`Rule.datesFromSeed`). This file
fixes

* **what is passed on setting out does not matter when it lies before the window**
  (`Rule.dates_eq_of_passedBelow`), and never from a bound on that it lies below
  (`Rule.mem_dates_iff_of_passedBelow`);
* a floating series in a window that begins in a zone skips by what clocks show at the start, but
  sifts by the instant of the start. **Nothing is lost from the time on that clocks show, and nothing
  at all where clocks are not ahead of UTC** (`Rule.dates_from_zoned_start`); where they are ahead,
  hours are lost (`Rule.hours_lost_east_of_utc`);
* a day that is moved forward is found by the increment of the month before. **It is not lost**,
  unless every month counts and seed and start both fall on the first of a month, the start at a
  later time of day (`Rule.dates_of_days_moved_forward`); then it can be
  (`Rule.day_moved_forward_lost`).
-/

namespace Almanac

/-- The occurrences from the seed to `stop` that are not before `start`: what a walk that sets out
    at the seed finds in the window. -/
def Rule.datesFromSeed (r : Rule) (seed start stop : Temporal) : List Temporal :=
  (r.dates seed seed stop none).filter fun t => !(Comparator.forSeed seed).before t start

/-! ## 1. What is passed on setting out -/

namespace Series

variable {s : Series}

/-- All candidates of the increments that a walk has passed when it sets out have keys below a
    bound. -/
def PassedBelow (s : Series) (bound : Int) : Prop :=
  ∀ j < s.setOut.increment, ∀ c, s.rule.incrementStart? s.origin j = some c →
    ∀ x ∈ s.candidates c, s.key x < bound

/-- Without a guard it does not matter how many increments were empty. -/
theorem ahead_of_unguarded (hguard : s.rule.settings.guard? = none) (k empties empties' : Nat) :
    s.ahead k empties = s.ahead k empties' := by
  have open' : ∀ n : Nat, s.rule.settings.guard?.any (fun limit => limit ≤ n) = false := fun n => by
    rw [hguard]
    rfl
  cases hp : s.rule.incrementStart? s.origin k with
  | none => rw [ahead_of_none hp, ahead_of_none hp]
  | some period =>
    have nearer := Rule.incrementStart?_lt_horizon hp
    rw [ahead_of_some (open' empties) hp, ahead_of_some (open' empties') hp,
      ahead_of_unguarded hguard (k + 1) (s.emptiesAfter empties period)
        (s.emptiesAfter empties' period)]
termination_by horizon - k

/-- What lies ahead of the first increment is what lies before an increment, and then what lies
    ahead of that. -/
theorem exists_ahead_eq_append (hguard : s.rule.settings.guard? = none) (k : Nat) :
    ∃ passed, s.ahead 0 0 = passed ++ s.ahead k 0 ∧ ∀ x ∈ passed, ∃ j c, j < k ∧
      s.rule.incrementStart? s.origin j = some c ∧ x ∈ s.candidates c := by
  induction k with
  | zero => exact ⟨[], rfl, fun _ hx => absurd hx List.not_mem_nil⟩
  | succ k ih =>
    obtain ⟨passed, split', before⟩ := ih
    have earlier : ∀ x ∈ passed, ∃ j c, j < k + 1 ∧
        s.rule.incrementStart? s.origin j = some c ∧ x ∈ s.candidates c := fun x hx => by
      obtain ⟨j, c, lt, hc, mem⟩ := before x hx
      exact ⟨j, c, Nat.lt_succ_of_lt lt, hc, mem⟩
    cases hp : s.rule.incrementStart? s.origin k with
    | none =>
      have ended := Rule.incrementStart?_eq_none_of_le k.le_succ hp
      rw [ahead_of_none hp] at split'
      exact ⟨passed, by rw [ahead_of_none ended, split'], earlier⟩
    | some period =>
      refine ⟨passed ++ s.candidates period, ?_, fun x hx => ?_⟩
      · rw [split', ahead_of_some (by rw [hguard]; rfl) hp, List.append_assoc,
          ahead_of_unguarded hguard (k + 1) _ 0]
      · rcases List.mem_append.mp hx with hx | hx
        · exact earlier x hx
        · exact ⟨k, period, k.lt_succ_self, hp, hx⟩

/-- **From the bound on, the course is the one from the seed.** -/
theorem mem_course_iff_of_passedBelow (hguard : s.rule.settings.guard? = none) {bound : Int}
    (passed : s.PassedBelow bound) {x : Temporal} (hx : bound ≤ s.key x) :
    x ∈ s.course s.setOut.increment ↔ x ∈ s.course 0 := by
  obtain ⟨before, split', mem⟩ := exists_ahead_eq_append hguard s.setOut.increment
  unfold course
  rw [split']
  refine (mem_climb_append_iff (fun b hb => ?_) hx).symm
  obtain ⟨j, c, lt, hc, hb⟩ := mem b hb
  exact passed j lt c hc b hb

end Series

namespace Rule

variable {r : Rule} {seed start stop x : Temporal} {bound : Int}

/-- A walk in a window that begins at the seed sets out at the seed. -/
theorem increment_setOut_within_seed (r : Rule) (seed stop : Temporal) :
    (r.within seed seed stop).setOut.increment = 0 := by
  unfold Series.setOut
  dsimp only [Rule.within]
  split
  · rename_i start hstart _
    cases hstart
    exact if_pos (Int.le_refl _)
  · rfl

theorem lastKept_within (hs : seed.zone? = none) : (r.within seed start stop).LastKept :=
  Series.lastKept_of _ fun _ _ => .inr hs

/-- What a window lists, told by the course from where the walk sets out. -/
theorem mem_dates_iff_course (hcount : r.parts.count? = none) (hs : seed.zone? = none) :
    x ∈ r.dates seed start stop none ↔
      x ∈ (r.occurrences seed).course (r.within seed start stop).setOut.increment ∧
        (r.occurrences seed).exceedsLast x = false ∧
        (Comparator.forSeed seed).before x start = false ∧
        (Comparator.forSeed seed).after x stop = false := by
  have window : (r.within seed start stop).inside x = true ↔
      (Comparator.forSeed seed).before x start = false ∧
        (Comparator.forSeed seed).after x stop = false := by
    rw [Series.inside_iff]
    simp [Rule.within, Series.comparator]
  show x ∈ (r.within seed start stop).toList ↔ _
  rw [Series.mem_toList_iff (lastKept_within hs) hcount,
    (r.sameSteps_within seed start stop).course, window]
  rfl

/-- A search from the seed goes along the whole course. -/
theorem mem_datesFromSeed_iff_course (hcount : r.parts.count? = none) (hs : seed.zone? = none) :
    x ∈ r.datesFromSeed seed start stop ↔
      x ∈ (r.occurrences seed).course 0 ∧ (r.occurrences seed).exceedsLast x = false ∧
        (Comparator.forSeed seed).before x start = false ∧
        (Comparator.forSeed seed).after x stop = false := by
  unfold datesFromSeed
  rw [List.mem_filter, Bool.not_eq_true', mem_dates_iff_course hcount hs,
    increment_setOut_within_seed]
  constructor
  · rintro ⟨⟨mem, notBeyond, -, to'⟩, from'⟩
    exact ⟨mem, notBeyond, from', to'⟩
  · rintro ⟨mem, notBeyond, from', to'⟩
    have above : (r.occurrences seed).key seed - 1 < (r.occurrences seed).key x :=
      (mem_of_mem_climb mem).2
    have fromSeed : (Comparator.forSeed seed).before x seed = false := by
      rw [Comparator.before_eq_false_iff]
      show (r.occurrences seed).key seed ≤ (r.occurrences seed).key x
      omega
    exact ⟨⟨mem, notBeyond, fromSeed, to'⟩, from'⟩

/-- What a window lists from a bound on that all that is passed lies below. -/
theorem mem_dates_iff_of_passedBelow (hcount : r.parts.count? = none)
    (hguard : r.settings.guard? = none) (hs : seed.zone? = none)
    (passed : (r.within seed start stop).PassedBelow bound)
    (hx : bound ≤ (Comparator.forSeed seed).key x) :
    x ∈ r.dates seed start stop none ↔ x ∈ r.datesFromSeed seed start stop := by
  have same := Series.mem_course_iff_of_passedBelow hguard passed hx
  rw [(r.sameSteps_within seed start stop).course, (r.sameSteps_within seed start stop).course]
    at same
  rw [mem_dates_iff_course hcount hs, mem_datesFromSeed_iff_course hcount hs, same]

/-- **What is passed does not matter when it lies before the window.** -/
theorem dates_eq_of_passedBelow (hcount : r.parts.count? = none)
    (hguard : r.settings.guard? = none) (hs : seed.zone? = none)
    (passed : (r.within seed start stop).PassedBelow bound)
    (before : bound ≤ (Comparator.forSeed seed).key start) :
    r.dates seed start stop none = r.datesFromSeed seed start stop := by
  have ascends : ∀ value, (r.dates seed value stop none).Pairwise fun a b =>
      (Comparator.forSeed seed).key a < (Comparator.forSeed seed).key b := fun value =>
    Series.pairwise_toList (lastKept_within hs) hcount
  refine eq_of_ascending (ascends start) ((ascends seed).filter _) fun x => ?_
  by_cases inside : (Comparator.forSeed seed).before x start = false
  · rw [Comparator.before_eq_false_iff] at inside
    exact mem_dates_iff_of_passedBelow hcount hguard hs passed (by omega)
  · -- neither lists what is before the window
    rw [mem_dates_iff_course hcount hs]
    refine iff_of_false (fun h => inside h.2.2.1) fun h => inside ?_
    exact ((mem_datesFromSeed_iff_course hcount hs).mp h).2.2.1

/-! ## 2. Windows that begin in a zone -/

/-- What a walk on a floating seed has passed lies before what is read off the start. -/
theorem passedBelow_of_floating (hcount : r.parts.count? = none) (hskip : r.skip = .leaveOut)
    (c : Civil) (start stop : Temporal) :
    (r.within (.floating c) start stop).PassedBelow start.localTime.stamp := by
  intro j passed d hd x hx
  obtain ⟨cx, hx, before⟩ := Series.exists_civil_of_passed rfl hskip hcount rfl passed hd hx
  rw [Series.frame_of_unzoned rfl] at before
  have key : (r.within (.floating c) start stop).key x = cx.stamp :=
    Temporal.key_of_withCivil rfl hx
  rw [key]
  exact before

/-- Without a skip policy a walk never lists more than a search from the seed. -/
theorem mem_datesFromSeed_of_mem_dates (hcount : r.parts.count? = none)
    (hskip : r.skip = .leaveOut) (hguard : r.settings.guard? = none) (hs : seed.zone? = none)
    (h : x ∈ r.dates seed start stop none) : x ∈ r.datesFromSeed seed start stop := by
  obtain ⟨mem, bounds⟩ := (mem_dates_iff_course hcount hs).mp h
  refine (mem_datesFromSeed_iff_course hcount hs).mpr ⟨?_, bounds⟩
  have course : ∀ {k}, x ∈ (r.occurrences seed).course k ↔ x ∈ (r.occurrences seed).ahead k 0 ∧
      (r.occurrences seed).comparator.before x seed = false :=
    Series.mem_course_iff hs hskip
  obtain ⟨ahead, fromSeed⟩ := course.mp mem
  obtain ⟨j, period, -, hp, hx⟩ := (Series.mem_ahead_iff hguard).mp ahead
  exact course.mpr ⟨(Series.mem_ahead_iff hguard).mpr ⟨j, period, j.zero_le, hp, hx⟩, fromSeed⟩

/-- In a zone that is not ahead of UTC clocks show no later time than UTC. -/
theorem stamp_localTime_le {z : Zoned} (h : z.offset ≤ 0) :
    z.localTime.stamp ≤ z.instant.stamp := by
  have low := z.instant.first_le
  have high := z.instant.le_last
  unfold Zoned.offset at h
  unfold Zoned.localTime Zone.localTime Civil.shift Civil.nearest
  split
  · exact low
  · split
    · rename_i past
      omega
    · show z.instant.stamp + z.zone.offsetAt z.instant ≤ z.instant.stamp
      omega

/-- **A floating series in a window that begins in a zone.** The walk skips by what clocks show at
    the start, and sifts by the instant of the start. It lists nothing that a search from the seed
    would not list, loses nothing from the time on that clocks show, and nothing at all where clocks
    are not ahead of UTC. -/
theorem dates_from_zoned_start (r : Rule) (hcount : r.parts.count? = none)
    (hskip : r.skip = .leaveOut) (hguard : r.settings.emptyLimit ≤ 0) (c : Civil) (z : Zoned)
    (stop : Temporal) :
    (∀ x ∈ r.dates (.floating c) (.zoned z) stop none,
        x ∈ r.datesFromSeed (.floating c) (.zoned z) stop) ∧
      (∀ x ∈ r.datesFromSeed (.floating c) (.zoned z) stop,
        z.localTime.stamp ≤ (Comparator.forSeed (.floating c)).key x →
          x ∈ r.dates (.floating c) (.zoned z) stop none) ∧
      (z.offset ≤ 0 → r.dates (.floating c) (.zoned z) stop none =
        r.datesFromSeed (.floating c) (.zoned z) stop) := by
  have guard : r.settings.guard? = none := if_neg (Int.not_lt.mpr hguard)
  have passed := passedBelow_of_floating hcount hskip c (.zoned z) stop
  refine ⟨fun x => mem_datesFromSeed_of_mem_dates hcount hskip guard rfl, fun x hx late => ?_,
    fun west => ?_⟩
  · exact (mem_dates_iff_of_passedBelow hcount guard rfl passed late).mpr hx
  · exact dates_eq_of_passedBelow hcount guard rfl passed (stamp_localTime_le west)

/-- One hour after the other. -/
def hourAfterHour : Rule where
  frequency := .hourly
  parts := .none
  settings := { Settings.standard with emptyLimit := 0 }
  valid := RuleParts.fault?_none

/-- From midnight of 1 January 2024 on, seen from nine in the morning of the next day in New
    York. -/
theorem hourAfterHour_from_newYork :
    let c : Civil := ⟨63871286400, false, by decide, by decide⟩
    let z : Zoned := ⟨⟨63871423200, false, by decide, by decide⟩, ZoneTable.newYork⟩
    let stop : Temporal := .utc ⟨63871423200, false, by decide, by decide⟩
    (hourAfterHour.parts.count? = none ∧ hourAfterHour.skip = .leaveOut ∧
        hourAfterHour.settings.emptyLimit ≤ 0 ∧ z.offset ≤ 0) ∧
      (∀ x ∈ hourAfterHour.dates (.floating c) (.zoned z) stop none,
        x ∈ hourAfterHour.datesFromSeed (.floating c) (.zoned z) stop) ∧
      (∀ x ∈ hourAfterHour.datesFromSeed (.floating c) (.zoned z) stop,
        z.localTime.stamp ≤ (Comparator.forSeed (.floating c)).key x →
          x ∈ hourAfterHour.dates (.floating c) (.zoned z) stop none) ∧
      hourAfterHour.dates (.floating c) (.zoned z) stop none =
        hourAfterHour.datesFromSeed (.floating c) (.zoned z) stop := by
  intro c z stop
  have west : z.offset ≤ 0 := by decide +kernel
  obtain ⟨sound, late, all⟩ :=
    hourAfterHour.dates_from_zoned_start rfl rfl (Int.le_refl 0) c z stop
  exact ⟨⟨rfl, rfl, Int.le_refl 0, west⟩, sound, late, all west⟩

/-- **East of UTC hours are lost**: at midnight in UTC, when clocks in Tokyo show nine, the walk has
    passed the hours since midnight. -/
theorem hours_lost_east_of_utc :
    let seed : Temporal := .floating ⟨63871286400, false, by decide, by decide⟩
    let start : Temporal :=
      .zoned ⟨⟨63871372800, false, by decide, by decide⟩, ZoneTable.tokyo⟩
    let stop : Temporal := .floating ⟨63871412400, false, by decide, by decide⟩
    (hourAfterHour.parts.count? = none ∧ hourAfterHour.parts.skip = none ∧
        hourAfterHour.settings.emptyLimit ≤ 0) ∧
      hourAfterHour.dates seed start stop none ≠ hourAfterHour.datesFromSeed seed start stop := by
  decide +kernel

/-! ## 3. Days moved forward -/

/-- The increments of a monthly rule are the day of the seed in later months. -/
theorem incrementStart?_of_monthly (hf : r.frequency = .monthly) {origin c : Civil} {k : Nat}
    (h : r.incrementStart? origin k = some c) :
    c = origin.onDate c.date ∧
      c.date.monthIndex = origin.date.monthIndex + (k * r.interval : Nat) ∧
      (c.date.dayOfMonth = 1 → origin.date.dayOfMonth = 1) := by
  unfold incrementStart? at h
  rw [hf] at h
  obtain ⟨d, hd, rfl⟩ := Option.map_eq_some_iff.mp h
  rw [Civil.date_onDate]
  refine ⟨rfl, Date.monthIndex_of_addMonths? hd, fun one => ?_⟩
  have fields := d.fields_spec
  have long := twentyEight_le_daysInMonth (y := d.year) fields.1 fields.2.1
  have := Date.dayOfMonth_of_addMonths? hd
  omega

/-- The first of the month in which a monthly increment starts before a target lies before the target
    as well, unless all is on that first, and the target at a later time of day. -/
theorem stamp_lt_of_first {origin first target cx : Civil}
    (onFirst : first = origin.onDate first.date) (reach : first < target)
    (one : cx.date.dayOfMonth = 1) (month : cx.date.monthIndex = first.date.monthIndex)
    (hclear : first.date.dayOfMonth = 1 → target.date.dayOfMonth = 1 →
      target ≤ origin.onDate target.date) : cx.stamp < target.stamp := by
  have stamps := Civil.stamp_le_of_lt reach
  have low := Date.day_le_of_first one month
  refine Int.not_le.mp fun late => ?_
  -- all three lie on one day, and there the increment is not before the target
  simp only [Civil.day_date] at low
  have same : first.date = target.date := Date.ext (by simp only [Civil.day_date]; omega)
  have same' : cx.date = target.date := Date.ext (by simp only [Civil.day_date]; omega)
  rw [same] at onFirst hclear
  rw [same'] at one
  have not := hclear one one
  rw [← onFirst, Civil.le_iff_rank] at not
  rw [Civil.lt_iff_rank] at reach
  omega

/-- **What belongs to the month of an earlier increment is earlier than a target behind a later
    one**, unless every month counts, all is on the first, and the target at a later time of day. -/
theorem stamp_lt_of_belongsTo (hf : r.frequency = .monthly) {origin c first target cx : Civil}
    {j k : Nat} (hc : r.incrementStart? origin j = some c)
    (hfirst : r.incrementStart? origin k = some first) (lt : j < k) (reach : first < target)
    (belongs : cx.date.BelongsTo c.date.monthIndex)
    (hclear : r.interval = 1 → origin.date.dayOfMonth = 1 → target.date.dayOfMonth = 1 →
      target ≤ origin.onDate target.date) : cx.stamp < target.stamp := by
  obtain ⟨-, index, -⟩ := incrementStart?_of_monthly hf hc
  obtain ⟨onFirst, index', seedFirst⟩ := incrementStart?_of_monthly hf hfirst
  have apart : j * r.interval + r.interval ≤ k * r.interval := by
    rw [← Nat.succ_mul]
    exact Nat.mul_le_mul_right r.interval lt
  have one_le := r.one_le_interval
  have earlier : cx.date.monthIndex < first.date.monthIndex → cx.stamp < target.stamp := by
    intro month
    have before : cx.stamp < first.stamp :=
      @Frequency.stamp_lt_of_unitIndex_lt .monthly r.weekStart cx first month
    have := Civil.stamp_le_of_lt reach
    omega
  rcases belongs with same | ⟨next, one⟩
  · exact earlier (by omega)
  · rcases Int.lt_or_le cx.date.monthIndex first.date.monthIndex with month | month
    · exact earlier month
    · -- the months of the two increments follow each other
      have every : r.interval = 1 := by omega
      exact stamp_lt_of_first onFirst reach one (by omega)
        fun first' target' => hclear every (seedFirst first') target'

/-- **Days moved forward are passed only before the window**, unless they may fall on its first
    day. -/
theorem passedBelow_of_forward (hf : r.frequency = .monthly) (hskip : r.skip = .forward)
    (hcount : r.parts.count? = none) (hs : seed.zone? = none) (htime : seed.isDateTime = true)
    (hz : start.zone? = none)
    (hclear : r.interval = 1 → seed.toDate.dayOfMonth = 1 → start.toDate.dayOfMonth = 1 →
      start.localTime ≤ seed.localTime.onDate start.toDate) (stop : Temporal) :
    (r.within seed start stop).PassedBelow ((Comparator.forSeed seed).key start) := by
  intro j passed c hc x hx
  have hs' : (r.within seed start stop).seed.zone? = none := hs
  have htime' : (r.within seed start stop).seed.isDateTime = true := htime
  obtain ⟨first, hfirst, reach⟩ := Series.exists_first_lt_of_passed hcount rfl passed
  rw [Series.origin_of_unzoned hs'] at hc hfirst
  rw [Series.candidates_of_unzoned hs'] at hx
  obtain ⟨cx, mem, hx⟩ := List.mem_filterMap.mp (mem_of_mem_ascending hx)
  rw [valueAt?_none] at hx
  rw [Series.frame_of_unzoned hs', Temporal.inFrameOf_of_unzoned hs' hz, if_pos htime'] at reach
  have before := stamp_lt_of_belongsTo hf hc hfirst passed reach
    (belongsTo_of_mem_civilCandidates hf hskip mem) hclear
  have key : (Comparator.forSeed seed).key x = cx.stamp := by
    rw [Temporal.key_of_withCivil hs hx, if_pos htime]
  show (Comparator.forSeed seed).key x < (Comparator.forSeed seed).key start
  rw [key, Comparator.key_forSeed hs hz, if_pos htime]
  exact before

/-- **Days moved forward are not lost in a window**, unless every month counts, seed and start both
    fall on the first of a month, and the start at a later time of day. For then the walk begins
    with an increment on the day of the start, and passes the month before, whose days may have been
    moved to that very day. -/
theorem dates_of_days_moved_forward (r : Rule) (hf : r.frequency = .monthly)
    (hskip : r.skip = .forward) (hcount : r.parts.count? = none)
    (hguard : r.settings.emptyLimit ≤ 0) {seed start : Temporal} (hseed : seed.zone? = none)
    (htime : seed.isDateTime = true) (hstart : start.zone? = none)
    (hclear : r.interval = 1 → seed.toDate.dayOfMonth = 1 → start.toDate.dayOfMonth = 1 →
      start.localTime ≤ seed.localTime.onDate start.toDate) (stop : Temporal) :
    r.dates seed start stop none = r.datesFromSeed seed start stop := by
  have guard : r.settings.guard? = none := if_neg (Int.not_lt.mpr hguard)
  exact dates_eq_of_passedBelow hcount guard hseed
    (passedBelow_of_forward hf hskip hcount hseed htime hstart hclear stop) (Int.le_refl _)

/-- The 31st of each month, or the first of the next one, at five in the afternoon. -/
def movedMonthEnds : Rule where
  frequency := .monthly
  parts := { RuleParts.none with
    scale := some .gregorian, skip := some .forward, monthDays := [31], hours := [17] }
  settings := { Settings.standard with emptyLimit := 0 }
  valid := by decide

/-- A window may begin with the midnight of a first. -/
theorem movedMonthEnds_from_midnight :
    let seed : Temporal := .floating ⟨63871318800, false, by decide, by decide⟩
    let start : Temporal := .floating ⟨63881740800, false, by decide, by decide⟩
    let stop : Temporal := .floating ⟨63884419200, false, by decide, by decide⟩
    (movedMonthEnds.frequency = .monthly ∧ movedMonthEnds.skip = .forward ∧
        movedMonthEnds.parts.count? = none ∧ movedMonthEnds.settings.emptyLimit ≤ 0 ∧
        seed.zone? = none ∧ seed.isDateTime = true ∧ start.zone? = none ∧
        (movedMonthEnds.interval = 1 → seed.toDate.dayOfMonth = 1 → start.toDate.dayOfMonth = 1 →
          start.localTime ≤ seed.localTime.onDate start.toDate)) ∧
      movedMonthEnds.dates seed start stop none = movedMonthEnds.datesFromSeed seed start stop := by
  intro seed start stop
  have clear : movedMonthEnds.interval = 1 → seed.toDate.dayOfMonth = 1 →
      start.toDate.dayOfMonth = 1 → start.localTime ≤ seed.localTime.onDate start.toDate := by
    decide +kernel
  exact ⟨⟨rfl, rfl, rfl, Int.le_refl 0, rfl, rfl, rfl, clear⟩,
    movedMonthEnds.dates_of_days_moved_forward rfl rfl rfl (Int.le_refl 0) rfl rfl rfl clear stop⟩

/-- **A day moved forward is lost** when the window begins at noon of the first: what stands for the
    31st of April falls on five in the afternoon of that day, but the walk begins with May. -/
theorem day_moved_forward_lost :
    let seed : Temporal := .floating ⟨63871318800, false, by decide, by decide⟩
    let start : Temporal := .floating ⟨63881784000, false, by decide, by decide⟩
    let stop : Temporal := .floating ⟨63884419200, false, by decide, by decide⟩
    (movedMonthEnds.frequency = .monthly ∧ movedMonthEnds.parts.scale = some .gregorian ∧
        movedMonthEnds.parts.skip = some .forward ∧ movedMonthEnds.parts.count? = none ∧
        movedMonthEnds.settings.emptyLimit ≤ 0) ∧
      movedMonthEnds.dates seed start stop none ≠
        movedMonthEnds.datesFromSeed seed start stop := by
  decide +kernel

end Rule

end Almanac
