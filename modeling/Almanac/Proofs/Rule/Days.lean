import Almanac.Proofs.Calendar.Spans
import Almanac.Proofs.Rule.Midnight

/-!
# The days that a rule takes

Of the parts that name days, the first one that is there spreads an increment of a month or a year
over its days, and every later one only lets days through. In a daily rule all of them let days
through. This file fixes

* **a date is accepted or not** (`Rule.accepts`), whatever the frequency: every part that lists
  anything has to let it through;
* **what a civil time stands for** (`Rule.StandsFor`): itself once its day is fixed, and before that
  all days of its year, or of its month. A stage that acts in the one way or the other
  (`Rule.Acts`) narrows what is stood for by its own test (`Covers.run`);
* the stages of daily, monthly and yearly rules act in these ways, each by the day being fixed
  before it or not (`acts_byWeekNumber`, `acts_byYearDay`, `acts_byMonthDay`, `acts_byDay`); an entry of
  BYDAY means a weekday, or with an ordinal that counts the one at its place (`Rule.means`);
* a rule may repeat on the day of its seed (`Rule.RepeatsMonthDay`, `Rule.RepeatsWeekday`), and that
  takes part like a listed one, so **the stages for dates find what passes all tests**
  (`mem_dateStages_iff`);
* where nothing is left open, **an increment finds the accepted days of its unit, all of them and no
  others** (`mem_dayStages_iff`).
-/

namespace Almanac

/-! ## 1. Accepted dates -/

/-- A part that lists nothing lets every date through. -/
def unlessEmpty {α : Type} (values : List α) (test : Date → Bool) (d : Date) : Bool :=
  values.isEmpty || test d

namespace Rule

/-- Whether a date lies in a listed month. -/
def inListedMonth (r : Rule) (d : Date) : Bool := r.parts.months.contains d.month

/-- Whether a date is a listed day of the year. -/
def onListedYearDay (r : Rule) (d : Date) : Bool :=
  placed r.parts.yearDays d.ordinal (daysInYear d.year)

/-- Whether a date is a listed day of the month. -/
def onListedMonthDay (r : Rule) (d : Date) : Bool :=
  placed r.parts.monthDays d.dayOfMonth (daysInMonth d.year d.month)

/-- Whether a date falls on a listed weekday. -/
def onListedWeekday (r : Rule) (d : Date) : Bool := r.parts.days.any (·.day = d.weekday)

/-- Whether every part that lists days, weeks or months lets a date through. -/
def accepts (r : Rule) (d : Date) : Bool :=
  unlessEmpty r.parts.months r.inListedMonth d && unlessEmpty r.parts.weekNumbers r.inListedWeek d &&
    unlessEmpty r.parts.yearDays r.onListedYearDay d &&
    unlessEmpty r.parts.monthDays r.onListedMonthDay d &&
    unlessEmpty r.parts.days r.onListedWeekday d

/-- A daily rule, a yearly one, or a monthly one that lists neither weeks nor days of the year. -/
def TakesDays (r : Rule) : Prop :=
  r.frequency = .daily ∨ r.frequency = .yearly ∨
    r.frequency = .monthly ∧ r.parts.weekNumbers = [] ∧ r.parts.yearDays = []

/-! ## 2. What a civil time stands for -/

variable {r : Rule} {c x period : Civil}

theorem eq_onDate_iff {d : Date} : x = c.onDate d ↔ x.clock = c.clock ∧ x.date = d := by
  constructor
  · rintro rfl
    exact ⟨c.clock_onDate d, c.date_onDate d⟩
  · rintro ⟨clock, rfl⟩
    obtain ⟨second, leap⟩ := Prod.mk.inj clock
    rw [Civil.onDate, ← second, ← leap, Civil.ofDate_date]

/-- What a civil time stands for: itself if its day is fixed, and if not, every day of its unit, or
    of its month when months are listed. -/
def StandsFor (r : Rule) (fixed : Bool) (c x : Civil) : Prop :=
  if fixed then x = c
  else x.clock = c.clock ∧ r.unitIndex x = r.unitIndex c ∧
    (r.parts.months = [] ∨ x.date.month = c.date.month)

/-- A stage that takes, of all that its input stands for, what passes a test. -/
def Acts (r : Rule) (fixed : Bool) (test : Date → Bool) (stage : Civil → List Civil) : Prop :=
  ∀ c, c.date.year < lastYear → ∀ x, x ∈ stage c ↔ r.StandsFor fixed c x ∧ test x.date = true

/-- Civil times that together stand for what, of an increment, passes a test. -/
def Covers (r : Rule) (period : Civil) (fixed : Bool) (test : Date → Bool) (times : List Civil) :
    Prop :=
  ∀ x, (∃ c ∈ times, r.StandsFor fixed c x) ↔
    x.clock = period.clock ∧ r.unitIndex x = r.unitIndex period ∧ test x.date = true

theorem standsFor_self (r : Rule) (fixed : Bool) (c : Civil) : r.StandsFor fixed c c := by
  cases fixed with
  | true => exact rfl
  | false => exact ⟨rfl, rfl, .inr rfl⟩

/-- What shares a unit of such a rule shares its year, and its month if the rule is not yearly. -/
theorem fields_of_unitIndex_eq (hr : r.TakesDays) (h : r.unitIndex x = r.unitIndex c) :
    x.date.year = c.date.year ∧ (r.frequency ≠ .yearly → x.date.month = c.date.month) := by
  unfold unitIndex at h
  rcases hr with hf | hf | ⟨hf, -⟩
  · rw [hf] at h
    rw [Date.ext h]
    exact ⟨rfl, fun _ => rfl⟩
  · rw [hf] at h
    exact ⟨h, fun no => absurd hf no⟩
  · rw [hf] at h
    have index : x.date.monthIndex = c.date.monthIndex := h
    have month := x.date.month_eq_monthIndex_mod
    rw [index, ← c.date.month_eq_monthIndex_mod] at month
    rw [Date.year_eq_monthIndex_div, Date.year_eq_monthIndex_div, index]
    exact ⟨rfl, fun _ => by omega⟩

/-- A date in what a rule spreads a day over: its year if the rule is yearly and lists no months,
    and its month if not. -/
def InSpan (r : Rule) (day d : Date) : Prop :=
  d.year = day.year ∧ (r.frequency = .yearly ∧ r.parts.months = [] ∨ d.month = day.month)

/-- **Before its day is fixed a civil time stands for its year, or for its month.** -/
theorem standsFor_open_iff (hr : r.frequency = .yearly ∨ r.frequency = .monthly) :
    r.StandsFor false c x ↔ x.clock = c.clock ∧ r.InSpan c.date x.date := by
  unfold StandsFor InSpan unitIndex
  rcases hr with hf | hf
  · simp only [hf, Bool.false_eq_true, if_false, true_and]
    rfl
  · simp only [hf, Bool.false_eq_true, if_false, reduceCtorEq, false_and, false_or]
    refine and_congr_right fun _ => ⟨?_, ?_⟩
    · rintro ⟨index, -⟩
      have year := x.date.year_eq_monthIndex_div
      have month := x.date.month_eq_monthIndex_mod
      have index : x.date.monthIndex = c.date.monthIndex := index
      rw [index] at year month
      rw [← c.date.year_eq_monthIndex_div] at year
      rw [← c.date.month_eq_monthIndex_mod] at month
      exact ⟨year, by omega⟩
    · rintro ⟨year, month⟩
      exact ⟨Date.monthIndex_eq year month, .inr month⟩

/-- In a rule that is not yearly the first civil time of an increment stands for all of it. -/
theorem standsFor_unit_iff (hr : r.TakesDays) (notYearly : r.frequency ≠ .yearly) :
    r.StandsFor (r.frequency = .daily) c x ↔
      x.clock = c.clock ∧ r.unitIndex x = r.unitIndex c := by
  by_cases daily : r.frequency = .daily
  · rw [decide_eq_true daily]
    constructor
    · intro same
      cases (show x = c from same)
      exact ⟨rfl, rfl⟩
    · rintro ⟨clock, unit⟩
      unfold unitIndex at unit
      rw [daily] at unit
      have same := eq_onDate_iff.mpr ⟨clock, Date.ext unit⟩
      exact same.trans c.ofDate_date
  · rw [decide_eq_false daily]
    refine ⟨fun h => ⟨h.1, h.2.1⟩, fun h => ⟨h.1, h.2, .inr ?_⟩⟩
    exact (fields_of_unitIndex_eq hr h.2).2 notYearly

theorem mem_runStage_iff {stage : Civil → List Civil} {times : List Civil} :
    x ∈ runStage times stage ↔ ∃ c ∈ times, x ∈ stage c := by
  unfold runStage
  constructor
  · exact fun h => List.mem_flatMap.mp (mem_of_mem_ascending h)
  · intro h
    obtain ⟨b, hb, rank⟩ := @exists_mem_ascending _ Civil.rank _ x (List.mem_flatMap.mpr h)
    rwa [Civil.rank_injective rank] at hb

/-- **A stage narrows what is stood for by its own test**, and after it the day is fixed; a part
    that lists nothing has no stage. -/
theorem Covers.run {α : Type} {values : List α} {fixed : Bool} {test own : Date → Bool}
    {stage : Civil → List Civil} {times : List Civil} (hr : r.TakesDays)
    (last : period.date.year < lastYear) (h : r.Covers period fixed test times)
    (acts : values ≠ [] → r.Acts fixed own stage) :
    r.Covers period (fixed || !values.isEmpty) (fun d => test d && unlessEmpty values own d)
      ((stageOf values stage).foldl runStage times) := by
  cases values with
  | nil =>
    simpa only [stageOf, unlessEmpty, List.isEmpty_nil, if_true, List.foldl_nil, Bool.not_true,
      Bool.or_false, Bool.true_or, Bool.and_true] using h
  | cons value rest =>
    have acts := acts (List.cons_ne_nil value rest)
    simp only [stageOf, unlessEmpty, List.isEmpty_cons, Bool.false_eq_true, if_false,
      List.foldl_cons, List.foldl_nil, Bool.not_false, Bool.or_true, Bool.false_or]
    intro x
    have found : (∃ c ∈ runStage times stage, r.StandsFor true c x) ↔ x ∈ runStage times stage :=
      ⟨fun ⟨c, hc, (same : x = c)⟩ => same ▸ hc, fun hx => ⟨x, hx, rfl⟩⟩
    have early : ∀ c ∈ times, c.date.year < lastYear := fun c hc => by
      have := ((h c).mp ⟨c, hc, r.standsFor_self fixed c⟩).2.1
      rw [(fields_of_unitIndex_eq hr this).1]
      exact last
    rw [found, mem_runStage_iff, Bool.and_eq_true, ← and_assoc (b := test x.date = true),
      ← and_assoc, ← h x]
    constructor
    · rintro ⟨c, hc, hx⟩
      obtain ⟨stands, passed⟩ := (acts c (early c hc) x).mp hx
      exact ⟨⟨c, hc, stands⟩, passed⟩
    · rintro ⟨⟨c, hc, stands⟩, passed⟩
      exact ⟨c, hc, (acts c (early c hc) x).mpr ⟨stands, passed⟩⟩

/-! ## 3. What the stages do -/

/-- A limiting stage acts on civil times whose day is fixed. -/
theorem acts_keepIf {test : Date → Bool} {stage : Civil → List Civil}
    (h : ∀ c, stage c = keepIf (fun c => test c.date) c) : r.Acts true test stage := by
  intro c _ x
  rw [h, mem_keepIf]
  refine and_congr_right fun same => ?_
  rw [same]

/-- A stage that puts the dates of a span to the clock acts on civil times whose day is open. -/
theorem acts_spread {test : Date → Bool} {stage : Civil → List Civil}
    (hr : r.frequency = .yearly ∨ r.frequency = .monthly)
    (h : ∀ c, c.date.year < lastYear → ∀ x, x ∈ stage c ↔
      ∃ d, x = c.onDate d ∧ r.InSpan c.date d ∧ test d = true) : r.Acts false test stage := by
  intro c early x
  rw [h c early, standsFor_open_iff hr, and_assoc]
  constructor
  · rintro ⟨d, hx, span, passed⟩
    obtain ⟨clock, rfl⟩ := eq_onDate_iff.mp hx
    exact ⟨clock, span, passed⟩
  · rintro ⟨clock, span, passed⟩
    exact ⟨x.date, eq_onDate_iff.mpr ⟨clock, rfl⟩, span, passed⟩

/-- In a yearly rule a civil time found for the months lies in a listed month of the year. -/
theorem month_of_mem_byMonth (yearly : r.frequency = .yearly) (h : c ∈ r.byMonth period) :
    ∃ d, c = period.onDate d ∧ d.year = period.date.year ∧ d.month ∈ r.parts.months := by
  unfold byMonth at h
  rw [if_pos yearly] at h
  obtain ⟨month, listed, hc⟩ := List.mem_filterMap.mp h
  obtain ⟨d, hd, rfl⟩ := Option.map_eq_some_iff.mp hc
  obtain ⟨year, rfl, -⟩ := Date.ofFields?_eq_some_iff.mp hd
  exact ⟨d, rfl, year, listed⟩

/-- And there is one for every listed month. -/
theorem exists_mem_byMonth (yearly : r.frequency = .yearly) (period : Civil) {e : Date}
    (listed : e.month ∈ r.parts.months) :
    ∃ d, period.onDate d ∈ r.byMonth period ∧ d.year = period.date.year ∧ d.month = e.month := by
  obtain ⟨low, high⟩ := period.date.year_within
  obtain ⟨m1, m2, -, -, -⟩ := e.fields_spec
  have length := one_le_daysInMonth (y := period.date.year) m1 m2
  have first := period.date.fields_spec.2.2.1
  obtain ⟨d, hd⟩ := Option.isSome_iff_exists.mp (Date.ofFields?_isSome low high
    (i := min period.date.dayOfMonth (daysInMonth period.date.year e.month)) ⟨m1, m2⟩ (by omega))
  obtain ⟨year, month, -⟩ := Date.ofFields?_eq_some_iff.mp hd
  refine ⟨d, ?_, year, month⟩
  unfold byMonth
  rw [if_pos yearly]
  exact List.mem_filterMap.mpr ⟨e.month, listed, Option.map_eq_some_iff.mpr ⟨d, hd, rfl⟩⟩

/-- **The months of a rule**: a yearly rule has one civil time for each, any other rule keeps the
    months that are listed. -/
theorem covers_byMonth (hr : r.TakesDays) (period : Civil) :
    r.Covers period (r.frequency = .daily) (unlessEmpty r.parts.months r.inListedMonth)
      ((stageOf r.parts.months r.byMonth).foldl runStage [period]) := by
  intro x
  by_cases empty : r.parts.months = []
  · simp only [stageOf, unlessEmpty, empty, List.isEmpty_nil, if_true, List.foldl_nil,
      List.mem_singleton, exists_eq_left, Bool.true_or, and_true]
    by_cases yearly : r.frequency = .yearly
    · simp only [StandsFor, yearly, empty, reduceCtorEq, decide_false, Bool.false_eq_true, if_false,
        true_or, and_true]
    · exact standsFor_unit_iff hr yearly
  · have some' : r.parts.months.isEmpty = false := by simpa using empty
    simp only [stageOf, unlessEmpty, some', Bool.false_eq_true, if_false, List.foldl_cons,
      List.foldl_nil, Bool.false_or, mem_runStage_iff, List.mem_singleton, exists_eq_left]
    by_cases yearly : r.frequency = .yearly
    · rw [decide_eq_false (by rw [yearly]; decide)]
      simp only [standsFor_open_iff (.inl yearly)]
      unfold InSpan inListedMonth
      simp only [List.contains_iff_mem, empty, and_false, false_or]
      constructor
      · rintro ⟨c, hc, clock, year, month⟩
        obtain ⟨d, rfl, dYear, listed⟩ := month_of_mem_byMonth yearly hc
        rw [Civil.date_onDate] at year month
        refine ⟨clock.trans (period.clock_onDate d), ?_, month ▸ listed⟩
        unfold unitIndex
        rw [yearly]
        exact year.trans dYear
      · rintro ⟨clock, unit, listed⟩
        obtain ⟨d, hd, dYear, dMonth⟩ := exists_mem_byMonth yearly period listed
        refine ⟨period.onDate d, hd, clock.trans (period.clock_onDate d).symm, ?_, ?_⟩
        · rw [Civil.date_onDate, dYear, (fields_of_unitIndex_eq hr unit).1]
        · rw [Civil.date_onDate, dMonth]
    · have keeps : ∀ c, c ∈ r.byMonth period ↔ c = period ∧ r.inListedMonth period.date = true := by
        intro c
        unfold byMonth
        rw [if_neg yearly, mem_keepIf]
        rfl
      simp only [keeps, and_assoc, exists_eq_left]
      rw [and_comm, standsFor_unit_iff hr yearly, and_assoc]
      refine and_congr_right fun _ => and_congr_right fun unit => ?_
      unfold inListedMonth
      rw [(fields_of_unitIndex_eq hr unit).2 yearly]

/-- The days of the listed weeks. -/
theorem acts_byWeekNumber (hr : r.TakesDays) (listed : r.parts.weekNumbers ≠ []) :
    r.Acts (r.frequency = .daily) r.inListedWeek r.byWeekNumber := by
  rcases hr with daily | yearly | ⟨-, none, -⟩
  · rw [decide_eq_true daily]
    refine acts_keepIf fun c => ?_
    unfold byWeekNumber
    rw [if_neg (by rw [daily]; decide)]
  · rw [decide_eq_false (by rw [yearly]; decide)]
    refine acts_spread (.inl yearly) fun c early x => ?_
    obtain ⟨first, last, bounds, year, within⟩ := c.date.within_yearBounds?
    have room := Date.room (year.trans_lt early)
    unfold byWeekNumber InSpan
    rw [if_pos yearly, bounds]
    simp only [List.mem_map, List.mem_filter, Date.mem_spaced_iff Nat.one_pos
      (show last.day + (1 : Nat) ≤ lastDay by omega), Bool.and_eq_true, Bool.or_eq_true,
      List.isEmpty_iff, decide_eq_true_eq]
    refine exists_congr fun d => ?_
    constructor
    · rintro ⟨⟨⟨low, high, -⟩, month, week⟩, rfl⟩
      exact ⟨rfl, ⟨(within d).mp ⟨low, high⟩, month.imp_left fun none => ⟨yearly, none⟩⟩, week⟩
    · rintro ⟨rfl, ⟨own, month⟩, week⟩
      obtain ⟨low, high⟩ := (within d).mpr own
      exact ⟨⟨⟨low, high, Int.one_dvd _⟩, month.imp_left And.right, week⟩, rfl⟩
  · exact absurd none listed

/-- The listed days of the year. -/
theorem acts_byYearDay (hr : r.TakesDays) (listed : r.parts.yearDays ≠ []) :
    r.Acts (r.frequency = .daily || !r.parts.weekNumbers.isEmpty) r.onListedYearDay
      r.byYearDay := by
  by_cases expands : r.frequency = .yearly ∧ r.parts.weekNumbers = []
  · obtain ⟨yearly, weeks⟩ := expands
    rw [weeks, decide_eq_false (by rw [yearly]; decide)]
    refine acts_spread (.inl yearly) fun c _ x => ?_
    unfold byYearDay InSpan onListedYearDay
    simp only [yearly, weeks, decide_true, List.isEmpty_nil, Bool.and_self, if_true,
      List.mem_filterMap, Option.map_eq_some_iff, Option.filter_eq_some_iff,
      Date.ofOrdinal?_eq_some_iff, Bool.or_eq_true, List.isEmpty_iff, decide_eq_true_eq, true_and,
      placed_ordinal_iff]
    constructor
    · rintro ⟨place, mem, d, ⟨⟨year, own⟩, month⟩, rfl⟩
      have first : 1 ≤ d.ordinal := Nat.succ_pos _
      rw [← year] at own
      exact ⟨d, rfl, ⟨year, month⟩, place, mem, by omega⟩
    · rintro ⟨d, rfl, ⟨year, month⟩, place, mem, own⟩
      rw [year] at own
      exact ⟨place, mem, d, ⟨⟨year, by omega⟩, month⟩, rfl⟩
  · have flag : (r.frequency = .daily || !r.parts.weekNumbers.isEmpty) = true := by
      simp only [Bool.or_eq_true, decide_eq_true_eq, Bool.not_eq_true', List.isEmpty_eq_false_iff]
      rcases hr with daily | yearly | ⟨-, -, none⟩
      · exact .inl daily
      · exact .inr fun weeks => expands ⟨yearly, weeks⟩
      · exact absurd none listed
    rw [flag]
    refine acts_keepIf fun c => ?_
    unfold byYearDay
    dsimp only
    rw [if_neg (by
      simpa only [Bool.and_eq_true, decide_eq_true_eq, List.isEmpty_iff] using expands)]
    rfl

/-- Where BYMONTHDAY spreads the day, it takes the places in the month, or in every month of a yearly rule
    that lists days but no months. -/
theorem mem_byMonthDay_iff (hf : r.frequency = .monthly ∨ r.frequency = .yearly)
    (weeks : r.parts.weekNumbers = []) (yearDays : r.parts.yearDays = [])
    (hskip : r.skip = .leaveOut) (places : List Int) : x ∈ r.byMonthDay places c ↔
      ∃ d, x = c.onDate d ∧ d.year = c.date.year ∧
        (r.frequency = .yearly ∧ r.parts.months = [] ∧ r.parts.monthDays ≠ [] ∨
          d.month = c.date.month) ∧
        placed places d.dayOfMonth (daysInMonth d.year d.month) = true := by
  have expands : ((r.frequency = .monthly || r.frequency = .yearly) &&
      r.parts.weekNumbers.isEmpty && r.parts.yearDays.isEmpty) = true := by
    simpa only [weeks, yearDays, List.isEmpty_nil, Bool.and_true, Bool.or_eq_true,
      decide_eq_true_eq] using hf
  have taken : ∀ d : Date, (d.month ∈ if (r.frequency = .yearly && r.parts.months.isEmpty &&
      !r.parts.monthDays.isEmpty) = true then List.range' 1 12 else [c.date.month]) ↔
        (r.frequency = .yearly ∧ r.parts.months = [] ∧ r.parts.monthDays ≠ [] ∨
          d.month = c.date.month) := by
    intro d
    obtain ⟨m1, m2, -⟩ := d.fields_spec
    simp only [Bool.and_eq_true, decide_eq_true_eq, List.isEmpty_iff, Bool.not_eq_true',
      List.isEmpty_eq_false_iff, and_assoc]
    by_cases wide : r.frequency = .yearly ∧ r.parts.months = [] ∧ r.parts.monthDays ≠ []
    · rw [if_pos wide, List.mem_range'_1]
      exact ⟨fun _ => .inl wide, fun _ => by omega⟩
    · rw [if_neg wide, List.mem_singleton, or_iff_right wide]
  unfold byMonthDay
  dsimp only
  rw [if_pos expands, hskip]
  simp only [List.mem_flatMap, List.mem_map, List.mem_filterMap, monthDay?_eq_some_iff,
    placed_dayOfMonth_iff]
  constructor
  · rintro ⟨month, hm, d, ⟨place, mem, year, rfl, own⟩, rfl⟩
    rw [← year] at own
    exact ⟨d, rfl, year, (taken d).mp hm, place, mem, own⟩
  · rintro ⟨d, rfl, year, hm, place, mem, own⟩
    rw [year] at own
    exact ⟨d.month, (taken d).mpr hm, d, ⟨place, mem, year, rfl, own⟩, rfl⟩

/-- The days at places of the month, of the rule's own or, where it names a month, of any others. -/
theorem acts_byMonthDay (hr : r.TakesDays) (hskip : r.skip = .leaveOut) (places : List Int)
    (named : r.frequency = .yearly → r.parts.months = [] → r.parts.monthDays ≠ []) :
    r.Acts (r.frequency = .daily || !r.parts.weekNumbers.isEmpty || !r.parts.yearDays.isEmpty)
      (fun d => placed places d.dayOfMonth (daysInMonth d.year d.month)) (r.byMonthDay places) := by
  by_cases expands : (r.frequency = .monthly ∨ r.frequency = .yearly) ∧
      r.parts.weekNumbers = [] ∧ r.parts.yearDays = []
  · obtain ⟨hf, weeks, yearDays⟩ := expands
    have flag : (r.frequency = .daily || !r.parts.weekNumbers.isEmpty ||
        !r.parts.yearDays.isEmpty) = false := by
      rw [weeks, yearDays]
      rcases hf with hf | hf
      · rw [hf]
        rfl
      · rw [hf]
        rfl
    rw [flag]
    refine acts_spread hf.symm fun c _ x => ?_
    rw [mem_byMonthDay_iff hf weeks yearDays hskip]
    refine exists_congr fun d => and_congr_right fun _ => ?_
    unfold InSpan
    rw [and_assoc]
    refine and_congr_right fun _ => and_congr_left fun _ => or_congr_left ?_
    exact and_congr_right fun yearly => ⟨And.left, fun months => ⟨months, named yearly months⟩⟩
  · have flag : (r.frequency = .daily || !r.parts.weekNumbers.isEmpty ||
        !r.parts.yearDays.isEmpty) = true := by
      simp only [Bool.or_eq_true, decide_eq_true_eq, Bool.not_eq_true', List.isEmpty_eq_false_iff]
      rcases hr with daily | yearly | ⟨monthly, weeks, yearDays⟩
      · exact .inl (.inl daily)
      · by_cases weeks : r.parts.weekNumbers = []
        · exact .inr fun yearDays => expands ⟨.inr yearly, weeks, yearDays⟩
        · exact .inl (.inr weeks)
      · exact absurd ⟨.inl monthly, weeks, yearDays⟩ expands
    rw [flag]
    refine acts_keepIf fun c => ?_
    unfold byMonthDay
    dsimp only
    rw [if_neg (by simpa only [Bool.and_eq_true, Bool.or_eq_true, decide_eq_true_eq,
      List.isEmpty_iff, and_assoc] using expands)]

/-- Whether something fixes the day before the weekdays do. -/
def dayFixed (r : Rule) : Bool :=
  r.frequency = .daily || !r.parts.weekNumbers.isEmpty || !r.parts.yearDays.isEmpty ||
    !r.parts.monthDays.isEmpty

/-- The first and the last date of what a rule spreads a day over. -/
def spanBounds? (r : Rule) (day : Date) : Option (Date × Date) :=
  if r.frequency = .yearly ∧ r.parts.months = [] then day.yearBounds? else day.monthBounds?

/-- The bounds of a span hold the dates of the span, and no others. -/
theorem within_spanBounds? (r : Rule) (day : Date) : ∃ first last,
    r.spanBounds? day = some (first, last) ∧ last.year = day.year ∧
      ∀ d : Date, first.day ≤ d.day ∧ d.day ≤ last.day ↔ r.InSpan day d := by
  unfold spanBounds? InSpan
  by_cases wide : r.frequency = .yearly ∧ r.parts.months = []
  · obtain ⟨first, last, bounds, year, within⟩ := day.within_yearBounds?
    refine ⟨first, last, by rw [if_pos wide, bounds], year, fun d => ?_⟩
    rw [within d]
    exact ⟨fun own => ⟨own, .inl wide⟩, And.left⟩
  · obtain ⟨first, last, bounds, year, within⟩ := day.within_monthBounds?
    refine ⟨first, last, by rw [if_neg wide, bounds], year, fun d => ?_⟩
    rw [within d, or_iff_right wide]

/-- The place of a date among the days of its weekday: in its year if the rule is yearly and lists no
    months, and in its month if not. -/
def IsNth (r : Rule) (d : Date) (place : Int) : Prop :=
  if r.frequency = .yearly ∧ r.parts.months = [] then d.IsNthOfYear place else d.IsNthOfMonth place

instance (r : Rule) (d : Date) (place : Int) : Decidable (r.IsNth d place) :=
  inferInstanceAs (Decidable (ite _ _ _))

/-- The weeks of a span before a date and behind it tell its place. -/
theorem isPlace_iff_isNth {day d first last : Date} {place : Int}
    (bounds : r.spanBounds? day = some (first, last)) (span : r.InSpan day d) :
    IsPlace place ((d.day - first.day) / 7).toNat ((last.day - d.day) / 7).toNat ↔
      r.IsNth d place := by
  unfold spanBounds? at bounds
  unfold InSpan at span
  unfold IsNth
  by_cases wide : r.frequency = .yearly ∧ r.parts.months = []
  · rw [if_pos wide] at bounds ⊢
    obtain ⟨before, behind⟩ := Date.offsets_yearBounds? bounds span.1
    rw [before, behind]
    rfl
  · rw [if_neg wide] at bounds ⊢
    obtain ⟨before, behind⟩ := Date.offsets_monthBounds? bounds span.1 (span.2.resolve_left wide)
    rw [before, behind]
    rfl

/-- Whether an entry means a date: one of its weekday, and at its place if it has an ordinal that counts. -/
def means (r : Rule) (e : DayEntry) (d : Date) : Bool :=
  e.day = d.weekday && (e.ordinal = 0 || r.dayScope = .anyWhere || r.IsNth d e.ordinal)

/-- How BYDAY acts: it spreads or limits within the span of the day, by the day being open or fixed,
    or it limits anywhere. -/
theorem dayScope_eq (hr : r.TakesDays) :
    r.dayFixed = true ∧ r.dayScope = .anyWhere ∨
      (r.frequency = .yearly ∨ r.frequency = .monthly) ∧
        r.dayScope = if r.frequency = .yearly ∧ r.parts.months = [] then .year !r.dayFixed
          else .month !r.dayFixed := by
  unfold dayScope dayFixed
  rcases hr with hf | hf | ⟨hf, weeks, yearDays⟩
  · refine .inl ⟨?_, ?_⟩
    · rw [hf]
      rfl
    · rw [hf]
  · simp only [hf, ← List.isEmpty_iff]
    cases r.parts.months.isEmpty <;> cases r.parts.weekNumbers.isEmpty <;>
      cases r.parts.yearDays.isEmpty <;> cases r.parts.monthDays.isEmpty <;> decide
  · refine .inr ⟨.inr hf, ?_⟩
    simp only [hf, weeks, yearDays, List.isEmpty_nil]
    cases r.parts.monthDays.isEmpty <;> simp

/-- Within the span of a day, BYDAY takes or keeps the listed weekdays. -/
theorem byDay_eq (hr : r.TakesDays) (entries : List DayEntry) :
    (r.dayFixed = true ∧ r.dayScope = .anyWhere) ∧
        r.byDay entries = keepIf (fun c => entries.any (·.day = c.date.weekday)) ∨
      ((r.frequency = .yearly ∨ r.frequency = .monthly) ∧ r.dayScope ≠ .anyWhere) ∧
        r.byDay entries = fun c => daysWithin (!r.dayFixed) entries (r.spanBounds? c.date) c := by
  unfold byDay spanBounds?
  rcases dayScope_eq hr with ⟨fixed, scope⟩ | ⟨hf, scope⟩
  · exact .inl ⟨⟨fixed, scope⟩, by rw [scope]⟩
  · refine .inr ⟨⟨hf, ?_⟩, funext fun c => ?_⟩
    · rw [scope]
      split <;> nofun
    · rw [scope]
      by_cases wide : r.frequency = .yearly ∧ r.parts.months = []
      · rw [if_pos wide, if_pos wide]
      · rw [if_neg wide, if_neg wide]

/-- Within its span an entry gives the dates that it means. -/
theorem mem_datesIn_iff_means {day d first last : Date} {e : DayEntry}
    (counts : r.dayScope ≠ .anyWhere) (bounds : r.spanBounds? day = some (first, last))
    (within : first.day ≤ d.day ∧ d.day ≤ last.day ↔ r.InSpan day d) (fits : last.day + 7 ≤ lastDay) :
    d ∈ e.datesIn first last ↔ r.InSpan day d ∧ r.means e d = true := by
  rw [DayEntry.mem_datesIn_iff fits, within]
  unfold means
  simp only [counts, decide_false, Bool.or_false, Bool.and_eq_true, Bool.or_eq_true,
    decide_eq_true_eq]
  exact and_congr_right fun span => and_congr_right fun _ =>
    or_congr_right (isPlace_iff_isNth bounds span)

/-- The days that listed entries mean. -/
theorem acts_byDay (hr : r.TakesDays) (entries : List DayEntry) :
    r.Acts r.dayFixed (fun d => entries.any (r.means · d)) (r.byDay entries) := by
  rcases byDay_eq hr entries with ⟨⟨flag, scope⟩, eq⟩ | ⟨⟨hf, counts⟩, eq⟩
  · rw [flag, eq]
    refine acts_keepIf fun c => ?_
    unfold means
    simp only [scope, decide_true, Bool.or_true, Bool.true_or, Bool.and_true]
  · rw [eq]
    cases fixed : r.dayFixed with
    | true =>
      intro c early x
      obtain ⟨first, last, bounds, year, within⟩ := r.within_spanBounds? c.date
      have room := Date.room (year.trans_lt early)
      have own : r.InSpan c.date c.date := ⟨rfl, .inr rfl⟩
      unfold daysWithin
      simp only [Bool.not_true, Bool.false_eq_true, if_false, bounds, mem_keepIf]
      refine and_congr_right fun same => ?_
      rw [same, List.any_eq_true, List.any_eq_true]
      simp only [List.mem_filter, decide_eq_true_eq, List.contains_iff_mem,
        mem_datesIn_iff_means counts bounds (within c.date) (by omega), own, true_and]
      refine exists_congr fun e => ⟨fun ⟨⟨mem, _⟩, meant⟩ => ⟨mem, meant⟩, fun ⟨mem, meant⟩ => ?_⟩
      exact ⟨⟨mem, of_decide_eq_true (Bool.and_eq_true_iff.mp meant).1⟩, meant⟩
    | false =>
      refine acts_spread hf fun c early x => ?_
      obtain ⟨first, last, bounds, year, within⟩ := r.within_spanBounds? c.date
      have room := Date.room (year.trans_lt early)
      unfold daysWithin
      simp only [Bool.not_false, if_true, bounds, List.mem_map, List.mem_flatMap, List.any_eq_true]
      constructor
      · intro ⟨d, ⟨e, mem, hd⟩, hx⟩
        obtain ⟨span, meant⟩ :=
          (mem_datesIn_iff_means counts bounds (within d) (by omega)).mp hd
        exact ⟨d, hx.symm, span, e, mem, meant⟩
      · intro ⟨d, hx, span, e, mem, meant⟩
        exact ⟨d, ⟨e, mem, (mem_datesIn_iff_means counts bounds (within d) (by omega)).mpr
          ⟨span, meant⟩⟩, hx.symm⟩

/-- Entries without an ordinal mean all days of their weekdays. -/
theorem any_means_of_plain {entries : List DayEntry} (plain : ∀ e ∈ entries, e.ordinal = 0)
    (d : Date) : entries.any (r.means · d) = entries.any (·.day = d.weekday) := by
  rw [Bool.eq_iff_iff, List.any_eq_true, List.any_eq_true]
  refine exists_congr fun e => and_congr_right fun mem => ?_
  unfold means
  simp only [plain e mem, decide_true, Bool.true_or, Bool.and_true]

/-! ## 4. What the seed stands in for -/

/-- A rule that repeats on the day of the month of its seed. -/
def RepeatsMonthDay (r : Rule) : Prop :=
  r.parts.monthDays = [] ∧ r.parts.days = [] ∧ (r.frequency = .monthly ∨
    r.frequency = .yearly ∧ r.parts.yearDays = [] ∧ r.parts.weekNumbers = [])

/-- A rule that repeats on the weekday of its seed. -/
def RepeatsWeekday (r : Rule) : Prop :=
  r.parts.days = [] ∧ (r.frequency = .weekly ∨ r.frequency = .yearly ∧
    r.parts.weekNumbers ≠ [] ∧ r.parts.yearDays = [] ∧ r.parts.monthDays = [])

theorem monthDaysFor_of_repeats (h : r.RepeatsMonthDay) (root : Civil) :
    r.monthDaysFor root = [(root.date.dayOfMonth : Int)] := by
  obtain ⟨monthDays, days, hf⟩ := h
  unfold monthDaysFor
  rcases hf with hf | ⟨hf, yearDays, weeks⟩
  · simp only [monthDays, days, hf, List.isEmpty_nil, Bool.and_self, if_true]
  · simp only [monthDays, days, hf, yearDays, weeks, List.isEmpty_nil, Bool.and_self, if_true]

theorem monthDaysFor_of_not (h : ¬ r.RepeatsMonthDay) (root : Civil) :
    r.monthDaysFor root = r.parts.monthDays := by
  unfold monthDaysFor
  dsimp only
  refine if_neg fun leftOpen => h ?_
  simp only [Bool.and_eq_true, List.isEmpty_iff] at leftOpen
  obtain ⟨⟨monthDays, days⟩, more⟩ := leftOpen
  refine ⟨monthDays, days, ?_⟩
  cases hf : r.frequency with
  | monthly => exact .inl rfl
  | yearly =>
    rw [hf] at more
    simp only [Bool.and_eq_true, List.isEmpty_iff] at more
    exact .inr ⟨rfl, more⟩
  | _ =>
    rw [hf] at more
    cases more

theorem daysFor_of_repeats (h : r.RepeatsWeekday) (root : Civil) :
    r.daysFor root = [DayEntry.every root.date.weekday] := by
  obtain ⟨days, hf⟩ := h
  unfold daysFor
  rcases hf with hf | ⟨hf, weeks, yearDays, monthDays⟩
  · simp only [days, hf, List.isEmpty_nil, Bool.and_self, if_true]
  · have some' : r.parts.weekNumbers.isEmpty = false := by simpa using weeks
    simp only [days, hf, yearDays, monthDays, some', List.isEmpty_nil, Bool.not_false, Bool.and_self,
      if_true]

theorem daysFor_of_not (h : ¬ r.RepeatsWeekday) (root : Civil) :
    r.daysFor root = r.parts.days := by
  unfold daysFor
  dsimp only
  refine if_neg fun leftOpen => h ?_
  simp only [Bool.and_eq_true, List.isEmpty_iff] at leftOpen
  obtain ⟨days, more⟩ := leftOpen
  refine ⟨days, ?_⟩
  cases hf : r.frequency with
  | weekly => exact .inl rfl
  | yearly =>
    rw [hf] at more
    simp only [Bool.and_eq_true, List.isEmpty_iff, Bool.not_eq_true',
      List.isEmpty_eq_false_iff] at more
    exact .inr ⟨rfl, more.1.1, more.1.2, more.2⟩
  | _ =>
    rw [hf] at more
    cases more

/-- A rule that repeats on the day of the month of its seed has no weekdays, listed or not. -/
theorem daysFor_eq_nil_of_repeats (h : r.RepeatsMonthDay) (root : Civil) : r.daysFor root = [] := by
  obtain ⟨-, days, hf⟩ := h
  rw [daysFor_of_not, days]
  intro ⟨_, hw⟩
  rcases hf with hf | ⟨hf, -, none⟩
  · rw [hf] at hw
    simp at hw
  · rw [hf] at hw
    simp [none] at hw

/-! ## 5. The stages for dates -/

/-- The stages for dates of a rule that starts at a seed. -/
def dateStages (r : Rule) (root : Civil) : List (Civil → List Civil) :=
  stageOf r.parts.months r.byMonth ++ stageOf r.parts.weekNumbers r.byWeekNumber ++
    stageOf r.parts.yearDays r.byYearDay ++
    stageOf (r.monthDaysFor root) (r.byMonthDay (r.monthDaysFor root)) ++
    stageOf (r.daysFor root) (r.byDay (r.daysFor root))

/-- What all tests of the stages for dates let through. -/
def datePasses (r : Rule) (root : Civil) (d : Date) : Bool :=
  unlessEmpty r.parts.months r.inListedMonth d && unlessEmpty r.parts.weekNumbers r.inListedWeek d &&
    unlessEmpty r.parts.yearDays r.onListedYearDay d &&
    unlessEmpty (r.monthDaysFor root)
      (fun d => placed (r.monthDaysFor root) d.dayOfMonth (daysInMonth d.year d.month)) d &&
    unlessEmpty (r.daysFor root) (fun d => (r.daysFor root).any (r.means · d)) d

/-- Something fixes the day in every rule of years, months or days. -/
theorem fixed_or_daysFor (hr : r.TakesDays) (root : Civil) :
    (r.frequency = .daily || !r.parts.weekNumbers.isEmpty || !r.parts.yearDays.isEmpty ||
      !(r.monthDaysFor root).isEmpty || !(r.daysFor root).isEmpty) = true := by
  simp only [Bool.or_eq_true, decide_eq_true_eq, Bool.not_eq_true', List.isEmpty_eq_false_iff]
  by_cases month : r.RepeatsMonthDay
  · rw [monthDaysFor_of_repeats month]
    exact .inl (.inr (List.cons_ne_nil _ _))
  · by_cases week : r.RepeatsWeekday
    · rw [daysFor_of_repeats week]
      exact .inr (List.cons_ne_nil _ _)
    · rw [monthDaysFor_of_not month, daysFor_of_not week]
      unfold RepeatsMonthDay at month
      rcases hr with hf | hf | ⟨hf, weeks, yearDays⟩
      · exact .inl (.inl (.inl (.inl hf)))
      · tauto
      · tauto

/-- **The stages for dates find what passes all tests**, in the unit of the increment, as long as the rule
    names a month where it repeats on the day of its seed. -/
theorem mem_dateStages_iff (hr : r.TakesDays) (hskip : r.skip = .leaveOut) (root : Civil)
    (early : period.date.year < lastYear)
    (named : r.RepeatsMonthDay → r.frequency = .yearly → r.parts.months ≠ []) :
    c ∈ (r.dateStages root).foldl runStage [period] ↔
      c.clock = period.clock ∧ r.unitIndex c = r.unitIndex period ∧
        r.datePasses root c.date = true := by
  have months := covers_byMonth hr period
  have weeks := months.run hr early (acts_byWeekNumber hr)
  have yearDays := weeks.run hr early (acts_byYearDay hr)
  have monthDays := yearDays.run hr early fun listed : r.monthDaysFor root ≠ [] =>
    acts_byMonthDay hr hskip (r.monthDaysFor root) fun yearly noMonths monthDays => by
      by_cases repeats : r.RepeatsMonthDay
      · exact named repeats yearly noMonths
      · rw [monthDaysFor_of_not repeats] at listed
        exact listed monthDays
  have days := monthDays.run hr early fun listed : r.daysFor root ≠ [] => by
    have own : r.monthDaysFor root = r.parts.monthDays :=
      monthDaysFor_of_not (fun repeats => listed (daysFor_eq_nil_of_repeats repeats root)) root
    rw [own]
    exact acts_byDay hr (r.daysFor root)
  rw [fixed_or_daysFor hr root] at days
  unfold dateStages
  simp only [List.foldl_append]
  refine Iff.trans ?_ (days c)
  exact ⟨fun hx => ⟨c, hx, rfl⟩, fun ⟨b, hb, (same : c = b)⟩ => same ▸ hb⟩

/-! ## 6. All days of an increment -/

/-- A rule that takes days and names them: by the year, by the month or by weekdays without an
    ordinal. -/
structure NamesDays (r : Rule) : Prop where
  takes : r.TakesDays
  skip : r.skip = .leaveOut
  plain : ∀ e ∈ r.parts.days, e.ordinal = 0
  named : r.parts.days ≠ [] ∨ r.parts.yearDays ≠ [] ∨ r.parts.monthDays ≠ []

/-- The stages for dates of a rule that leaves none open. -/
def dayStages (r : Rule) : List (Civil → List Civil) :=
  stageOf r.parts.months r.byMonth ++ stageOf r.parts.weekNumbers r.byWeekNumber ++
    stageOf r.parts.yearDays r.byYearDay ++
    stageOf r.parts.monthDays (r.byMonthDay r.parts.monthDays) ++
    stageOf r.parts.days (r.byDay r.parts.days)

/-- A rule that names its days does not repeat on the day of the month of its seed. -/
theorem NamesDays.not_repeatsMonthDay (h : r.NamesDays) : ¬ r.RepeatsMonthDay := by
  intro ⟨monthDays, days, hf⟩
  have yearDays : r.parts.yearDays ≠ [] :=
    (h.named.resolve_left fun named => named days).resolve_right fun named => named monthDays
  rcases hf with monthly | ⟨-, none, -⟩
  · rcases h.takes with daily | yearly | ⟨-, -, none⟩
    · cases monthly.symm.trans daily
    · cases monthly.symm.trans yearly
    · exact yearDays none
  · exact yearDays none

/-- Nor on its weekday. -/
theorem NamesDays.not_repeatsWeekday (h : r.NamesDays) : ¬ r.RepeatsWeekday := by
  intro ⟨days, hf⟩
  rcases hf with weekly | ⟨-, -, yearDays, monthDays⟩
  · rcases h.takes with daily | yearly | ⟨monthly, -⟩
    · cases weekly.symm.trans daily
    · cases weekly.symm.trans yearly
    · cases weekly.symm.trans monthly
  · rcases h.named with named | named | named
    · exact named days
    · exact named yearDays
    · exact named monthDays

/-- **An increment finds the accepted days of its unit, all of them and no others.** -/
theorem mem_dayStages_iff (h : r.NamesDays) (early : period.date.year < lastYear) :
    x ∈ r.dayStages.foldl runStage [period] ↔
      x.clock = period.clock ∧ r.unitIndex x = r.unitIndex period ∧ r.accepts x.date = true := by
  have monthDays := monthDaysFor_of_not h.not_repeatsMonthDay period
  have days := daysFor_of_not h.not_repeatsWeekday period
  have stages : r.dateStages period = r.dayStages := by
    unfold dateStages dayStages
    rw [monthDays, days]
  have passes : r.datePasses period x.date = r.accepts x.date := by
    unfold datePasses accepts
    rw [monthDays, days]
    simp only [any_means_of_plain h.plain]
    rfl
  rw [← stages, ← passes]
  exact mem_dateStages_iff h.takes h.skip period early
    fun repeats => absurd repeats h.not_repeatsMonthDay

end Rule

end Almanac
