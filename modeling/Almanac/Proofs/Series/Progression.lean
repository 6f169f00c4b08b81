import Almanac.Proofs.Calendar.Months
import Almanac.Proofs.Series.Elapsed
import Almanac.Proofs.Series.Weekly

/-!
# Rules without a BY part

Without a BY part a rule repeats its seed, unit after unit. This file fixes

* **the day of a month** (`Date.inMonth?`), with what the skip policy puts there where the month is too
  short. Later months have later days, whatever the policy (`Date.day_lt_of_inMonth?`): a day that is
  moved forward comes to the first of the next month, and so before that month's own day;
* **what comes so many intervals after a seed** (`Rule.after?`), counted from the seed and from nothing
  in between;
* every increment has this value and no other (`Rule.candidates_of_plain`), and so **the occurrences are
  the seed moved on by 0, 1, 2, … intervals** (`Rule.occurrences_of_plain`). A week that begins before
  the calendar is left out, and with it a seed that lies in it.
-/

namespace Almanac

/-! ## 1. Days of months -/

namespace Date

/-- The date on a day of the month with an index. If the month is too short, the skip policy decides: no
    date, the first of the next month, or the last of this one. -/
def inMonth? (policy : Skip) (index : Int) (day : Nat) : Option Date :=
  if day ≤ lengthAt index then ofIndex? index day
  else
    match policy with
    | .leaveOut => none
    | .forward => ofIndex? (index + 1) 1
    | .backward => ofIndex? index (lengthAt index)

variable {policy : Skip} {index : Int} {day : Nat} {d e : Date}

theorem inMonth?_eq_none (late : lastYear < index / 12) (policy : Skip) (day : Nat) :
    inMonth? policy index day = none := by
  unfold inMonth?
  rw [ofIndex?_eq_none late]
  cases policy with
  | leaveOut => exact ite_self none
  | forward => exact (congrArg (ite _ none ·) (ofIndex?_eq_none (by omega) 1)).trans (ite_self none)
  | backward => exact (congrArg (ite _ none ·) (ofIndex?_eq_none late _)).trans (ite_self none)

/-- A skip policy that moves days leaves no month of the calendar without one. The month after a short
    one is in the calendar, for the last month of the calendar is not short. -/
theorem inMonth?_isSome (low : firstYear ≤ index / 12) (high : index / 12 ≤ lastYear)
    (moves : policy ≠ .leaveOut) (one : 1 ≤ day) (most : day ≤ 31) :
    (inMonth? policy index day).isSome := by
  have long := lengthAt_bounds index
  unfold inMonth?
  split
  · rename_i fits
    exact ofIndex?_isSome low high one fits
  · rename_i short
    cases policy with
    | leaveOut => exact absurd rfl moves
    | forward =>
      have notLast : index % 12 ≠ 11 := fun last => short (lengthAt_of_december last ▸ most)
      have next := lengthAt_bounds (index + 1)
      exact ofIndex?_isSome (by omega) (by omega) (Nat.le_refl 1) (by omega)
    | backward => exact ofIndex?_isSome low high (by omega) (Nat.le_refl _)

/-- In its own month a date is on its own day. -/
theorem inMonth?_self (policy : Skip) (d : Date) :
    inMonth? policy d.monthIndex d.dayOfMonth = some d := by
  unfold inMonth?
  rw [if_pos d.dayOfMonth_le_lengthAt, ofIndex?_eq_some_iff]
  exact ⟨rfl, rfl⟩

/-- A date lies in its month, or is the first of the next one, to which the policy has moved it. -/
theorem monthIndex_of_inMonth? (h : inMonth? policy index day = some d) :
    d.monthIndex = index ∨ d.monthIndex = index + 1 ∧ d.dayOfMonth = 1 ∧ policy = .forward ∧
      lengthAt index < day := by
  unfold inMonth? at h
  split at h
  · exact .inl (ofIndex?_eq_some_iff.mp h).1
  · rename_i short
    cases policy with
    | leaveOut => cases h
    | forward =>
      obtain ⟨month, first⟩ := ofIndex?_eq_some_iff.mp h
      exact .inr ⟨month, first, rfl, Nat.lt_of_not_le short⟩
    | backward => exact .inl (ofIndex?_eq_some_iff.mp h).1

/-- Moved forward or not, a date that stayed in its month is on its own day. -/
theorem dayOfMonth_of_inMonth? (h : inMonth? .forward index day = some d) (own : d.monthIndex = index) :
    d.dayOfMonth = day := by
  unfold inMonth? at h
  split at h
  · exact (ofIndex?_eq_some_iff.mp h).2
  · have moved := (ofIndex?_eq_some_iff.mp h).1
    omega

/-- **Later months have later days.** -/
theorem day_lt_of_inMonth? {i j : Int} (later : i < j) (hd : inMonth? policy i day = some d)
    (he : inMonth? policy j day = some e) : d.day < e.day := by
  have low : j ≤ e.monthIndex := by
    rcases monthIndex_of_inMonth? he with own | moved
    · omega
    · omega
  rcases monthIndex_of_inMonth? hd with own | ⟨next, first, rfl, short⟩
  · exact day_lt_of_monthIndex_lt (by omega)
  · by_cases apart : d.monthIndex < e.monthIndex
    · exact day_lt_of_monthIndex_lt apart
    · -- the first of a month comes before the day that was too late for the month before
      have own := dayOfMonth_of_inMonth? he (by omega)
      have long := lengthAt_bounds i
      exact day_lt_of_dayOfMonth_lt (by omega) (by omega)

end Date

/-- The place of a seed's day of the month is that day, or what the skip policy puts there. -/
theorem Rule.monthDay?_eq_inMonth? (policy : Skip) (d : Date) {day : Nat} (one : 1 ≤ day) :
    monthDay? policy d.year d.month day = Date.inMonth? policy d.monthIndex day := by
  obtain ⟨low, high⟩ := d.year_within
  rw [d.year_eq_monthIndex_div] at low high
  have long := Date.lengthAt_bounds d.monthIndex
  obtain ⟨first, hfirst⟩ : ∃ first, Date.ofIndex? d.monthIndex 1 = some first :=
    Option.isSome_iff_exists.mp (Date.ofIndex?_isSome low high (Nat.le_refl 1) (by omega))
  obtain ⟨index, own⟩ := Date.ofIndex?_eq_some_iff.mp hfirst
  have next : first.addMonths? 1 = Date.ofIndex? (d.monthIndex + 1) 1 := by
    rw [Date.addMonths?_one_of_first own, index]
  have place : (if 0 < (day : Int) then (day : Int) else Date.lengthAt d.monthIndex + day + 1) = day :=
    if_pos (by omega)
  unfold monthDay? Date.inMonth?
  simp only [d.daysInMonth_eq_lengthAt, d.ofFields?_eq_ofIndex?, place, hfirst, Option.bind_some, next,
    Int.toNat_natCast]
  by_cases fits : day ≤ Date.lengthAt d.monthIndex
  · rw [if_pos fits, if_pos (by omega)]
  · have short : (Date.lengthAt d.monthIndex : Int) < day := by omega
    rw [if_neg fits, if_neg (by omega), if_pos short]
    cases policy with
    | leaveOut => rfl
    | forward => rfl
    | backward => exact if_pos short

/-! ## 2. Repetitions -/

namespace Rule

variable {r : Rule} {root c : Civil} {seed x : Temporal} {k : Nat}

/-- The seed's day of the month so many months later, at its time of day. -/
def dayAfter? (r : Rule) (seed : Civil) (months : Nat) : Option Civil :=
  (Date.inMonth? r.skip (seed.date.monthIndex + months) seed.date.dayOfMonth).map seed.onDate

/-- The civil time so many intervals after the seed. -/
def after? (r : Rule) (seed : Civil) (k : Nat) : Option Civil :=
  let units := k * r.interval
  match r.frequency with
  | .secondly => seed.addSeconds? units
  | .minutely => seed.addSeconds? (60 * units)
  | .hourly => seed.addSeconds? (3600 * units)
  | .daily => seed.addSeconds? (86400 * units)
  | .weekly => seed.addSeconds? (604800 * units)
  | .monthly => r.dayAfter? seed units
  | .yearly => r.dayAfter? seed (12 * units)

/-- The value of the seed's kind so many intervals after the seed. -/
def repeat? (r : Rule) (seed : Temporal) (k : Nat) : Option Temporal :=
  (r.after? seed.localTime k).bind (seed.withCivil r.settings.gapPolicy)

/-- Units of a week or less are the same wherever they are counted from. -/
theorem after?_of_le (rank : r.frequency.rank ≤ Frequency.weekly.rank) (origin : Civil) (k : Nat) :
    r.after? origin k = r.incrementStart? origin k := by
  unfold after? incrementStart? Frequency.advance?
  cases hf : r.frequency with
  | monthly =>
    rw [hf] at rank
    exact absurd rank (by decide)
  | yearly =>
    rw [hf] at rank
    exact absurd rank (by decide)
  | _ => rfl

/-- Longer units are a number of months, more for a later increment. -/
theorem exists_months (hf : r.frequency = .yearly ∨ r.frequency = .monthly) :
    ∃ months : Nat → Nat, StrictMono months ∧ months 0 = 0 ∧ ∀ origin k,
      r.incrementStart? origin k = origin.addMonths? (months k) ∧
        r.after? origin k = r.dayAfter? origin (months k) := by
  have positive := r.one_le_interval
  rcases hf with hf | hf
  · refine ⟨fun k => 12 * (k * r.interval), ?_, ?_, fun origin k => ?_⟩
    · intro i j lt
      exact Nat.mul_lt_mul_of_pos_left (Nat.mul_lt_mul_of_pos_right lt positive) (by decide)
    · simp
    · unfold incrementStart? after?
      rw [hf]
      exact ⟨rfl, rfl⟩
  · refine ⟨fun k => k * r.interval, ?_, ?_, fun origin k => ?_⟩
    · exact fun i j lt => Nat.mul_lt_mul_of_pos_right lt positive
    · simp
    · unfold incrementStart? after?
      rw [hf]
      exact ⟨rfl, rfl⟩

theorem le_weekly_or_months (r : Rule) : r.frequency.rank ≤ Frequency.weekly.rank ∨
    r.frequency = .yearly ∨ r.frequency = .monthly := by
  cases r.frequency <;> decide

/-- The rule repeats its seed to begin with. -/
theorem after?_zero (r : Rule) (origin : Civil) : r.after? origin 0 = some origin := by
  rcases r.le_weekly_or_months with rank | hf
  · rw [after?_of_le rank, incrementStart?_zero]
  · obtain ⟨months, -, zero, h⟩ := exists_months hf
    rw [(h origin 0).2, zero]
    unfold dayAfter?
    rw [Int.natCast_zero, Int.add_zero, Date.inMonth?_self]
    exact congrArg some origin.ofDate_date

/-- Behind the calendar there are no repetitions. -/
theorem after?_eq_none (none : r.incrementStart? root k = Option.none) :
    r.after? root k = Option.none := by
  rcases r.le_weekly_or_months with rank | hf
  · rw [after?_of_le rank, none]
  · obtain ⟨months, -, -, h⟩ := exists_months hf
    rw [(h root k).1] at none
    have low : firstYear ≤ (root.date.monthIndex + (months k : Int)) / 12 := by
      have := root.date.year_within
      have := root.date.year_eq_monthIndex_div
      omega
    have late : lastYear < (root.date.monthIndex + (months k : Int)) / 12 := by
      refine Int.not_le.mp fun high => ?_
      have some' := Date.addMonths?_isSome low high
      rw [Option.map_eq_none_iff.mp none] at some'
      cases some'
    rw [(h root k).2]
    unfold dayAfter?
    rw [Date.inMonth?_eq_none late]
    rfl

/-- **A later repetition is later**: its stamp is, and so is its day unless the units are less than a
    day. -/
theorem rises_of_after? {i j : Nat} {a b : Civil} (lt : i < j) (ha : r.after? root i = some a)
    (hb : r.after? root j = some b) :
    a.stamp < b.stamp ∧ (Frequency.daily.rank ≤ r.frequency.rank → a.date.day < b.date.day) := by
  rcases r.le_weekly_or_months with rank | hf
  · rw [after?_of_le rank] at ha hb
    have units := unitIndex_lt_of_lt lt ha hb
    refine ⟨stamp_lt_of_unitIndex_lt units, fun daily => ?_⟩
    unfold unitIndex at units
    cases hf : r.frequency with
    | daily =>
      rw [hf] at units
      exact units
    | weekly =>
      rw [hf] at units
      simp only [Frequency.unitIndex] at units
      omega
    | monthly =>
      rw [hf] at rank
      exact absurd rank (by decide)
    | yearly =>
      rw [hf] at rank
      exact absurd rank (by decide)
    | _ =>
      rw [hf] at daily
      exact absurd daily (by decide)
  · obtain ⟨months, mono, -, h⟩ := exists_months hf
    rw [(h root i).2] at ha
    rw [(h root j).2] at hb
    obtain ⟨d, hd, rfl⟩ := Option.map_eq_some_iff.mp ha
    obtain ⟨e, he, rfl⟩ := Option.map_eq_some_iff.mp hb
    have later : root.date.monthIndex + (months i : Int) < root.date.monthIndex + (months j : Int) := by
      have := mono lt
      omega
    have day := Date.day_lt_of_inMonth? later hd he
    rw [Civil.stamp_onDate, Civil.stamp_onDate, Civil.date_onDate, Civil.date_onDate]
    exact ⟨by omega, fun _ => day⟩

/-! ## 3. Increments -/

/-- One value at most is in order. -/
theorem ascending_toList {α : Type} (key : α → Int) (value : Option α) :
    ascending key value.toList = value.toList := by
  cases value <;> simp [ascending, thin]

theorem filterMap_toList {α β : Type} (value : Option α) (f : α → Option β) :
    value.toList.filterMap f = (value.bind f).toList := by
  cases value with
  | none => rfl
  | some a =>
    rw [Option.bind_some, Option.toList_some, List.filterMap_cons]
    cases f a <;> rfl

/-- The months of a rule without a BY part go through the stage for the seed's day of the month. -/
theorem stages_of_months (plain : r.parts.Plain) (hf : r.frequency = .yearly ∨ r.frequency = .monthly)
    (root : Civil) (dateOnly : Bool) :
    r.stages root dateOnly = [r.byMonthDay [(root.date.dayOfMonth : Int)]] := by
  have repeats : r.RepeatsMonthDay := ⟨plain.monthDays, plain.days,
    hf.symm.imp_right fun yearly => ⟨yearly, plain.yearDays, plain.weekNumbers⟩⟩
  unfold stages
  dsimp only
  rw [monthDaysFor_of_repeats repeats, daysFor_eq_nil_of_repeats repeats, plain.months,
    plain.weekNumbers, plain.yearDays, plain.hours, plain.minutes, plain.seconds]
  cases dateOnly <;> rfl

/-- So many months after a seed, this stage has the seed's day of that month. -/
theorem byMonthDay_of_months (plain : r.parts.Plain)
    (hf : r.frequency = .yearly ∨ r.frequency = .monthly) {months : Nat}
    (hc : root.addMonths? months = some c) :
    r.byMonthDay [(root.date.dayOfMonth : Int)] c = (r.dayAfter? root months).toList := by
  have index : c.date.monthIndex = root.date.monthIndex + (months : Int) :=
    Date.monthIndex_of_addMonths? (Civil.date_of_addMonths? hc)
  have onDate : c.onDate = root.onDate := by
    obtain ⟨d, -, rfl⟩ := Option.map_eq_some_iff.mp hc
    funext e
    exact eq_onDate_iff.mpr ⟨((root.onDate d).clock_onDate e).trans (root.clock_onDate d),
      (root.onDate d).date_onDate e⟩
  have expands : ((r.frequency = .monthly || r.frequency = .yearly) &&
      r.parts.weekNumbers.isEmpty && r.parts.yearDays.isEmpty) = true := by
    rw [plain.weekNumbers, plain.yearDays]
    rcases hf with hf | hf <;> rw [hf] <;> decide
  have one : 1 ≤ root.date.dayOfMonth := root.date.fields_spec.2.2.1
  unfold byMonthDay dayAfter?
  dsimp only
  rw [if_pos expands, plain.monthDays, ← index, ← monthDay?_eq_inMonth? r.skip c.date one, onDate]
  simp only [List.isEmpty_nil, Bool.not_true, Bool.and_false, Bool.false_eq_true, if_false,
    List.flatMap_singleton]
  cases hd : monthDay? r.skip c.date.year c.date.month root.date.dayOfMonth with
  | none => simp [hd]
  | some d => simp [hd]

/-- In a month or a year a rule without a BY part has the seed's day of the month. -/
theorem civilCandidates_of_months (plain : r.parts.Plain)
    (hf : r.frequency = .yearly ∨ r.frequency = .monthly) {months : Nat}
    (hc : root.addMonths? months = some c) (dateOnly : Bool) :
    r.civilCandidates root c dateOnly = (r.dayAfter? root months).toList := by
  unfold civilCandidates byPosition
  rw [stages_of_months plain hf, plain.positions, if_pos List.isEmpty_nil, List.foldl_cons,
    List.foldl_nil]
  unfold runStage
  rw [List.flatMap_singleton, byMonthDay_of_months plain hf hc, ascending_toList]

/-- In a week a rule without a BY part has the seed's weekday, and nothing if the week begins before the
    calendar. -/
theorem civilCandidates_of_week (plain : r.parts.Plain) (weekly : r.frequency = .weekly)
    (same : c.date.weekday = root.date.weekday) (dateOnly : Bool) :
    r.civilCandidates root c dateOnly =
      if c.date.weekBegin r.weekStart < firstDay then [] else [c] := by
  have h : r.ByWeekday :=
    ⟨weekly, plain.weekNumbers, plain.yearDays, plain.monthDays, plain.positions⟩
  have ascends : (r.civilCandidates root c dateOnly).Pairwise fun a b => a.rank < b.rank := by
    unfold civilCandidates byPosition
    rw [plain.positions]
    exact pairwise_foldl_runStage _ (List.pairwise_singleton _ _)
  have members : ∀ x, x ∈ r.civilCandidates root c dateOnly ↔
      x = c ∧ firstDay ≤ c.date.weekBegin r.weekStart := fun x => by
    have clock :=
      takesClock_iff_of_none (r := r) (c := c) (x := x) plain.hours plain.minutes plain.seconds
    rw [h.mem_civilCandidates_iff, clock, ite_self]
    constructor
    · intro ⟨taken, clock⟩
      have weekday := taken.weekday
      unfold TakesWeekday at weekday
      rw [if_pos plain.days, ← same] at weekday
      have date : x.date = c.date := Date.ext (Date.day_eq_of_weekday taken.week weekday)
      exact ⟨(eq_onDate_iff.mpr ⟨clock, date⟩).trans c.ofDate_date, taken.begins⟩
    · rintro ⟨rfl, begins⟩
      refine ⟨⟨rfl, begins, ?_, fun listed => absurd plain.months listed⟩, rfl⟩
      unfold TakesWeekday
      rw [if_pos plain.days, same]
  by_cases begins : c.date.weekBegin r.weekStart < firstDay
  · rw [if_pos begins]
    refine List.eq_nil_iff_forall_not_mem.mpr fun x hx => ?_
    exact absurd begins (Int.not_lt.mpr ((members x).mp hx).2)
  · rw [if_neg begins]
    refine eq_of_ascending ascends (List.pairwise_singleton _ c) fun x => ?_
    rw [members, List.mem_singleton, and_iff_left (Int.not_lt.mp begins)]

/-- Whether an increment lies in a week of a weekly rule that begins before the calendar. -/
def InBrokenWeek (r : Rule) (c : Civil) : Prop :=
  r.frequency = .weekly ∧ c.date.weekBegin r.weekStart < firstDay

instance (r : Rule) (c : Civil) : Decidable (r.InBrokenWeek c) := inferInstanceAs (Decidable (_ ∧ _))

/-- **An increment has what comes so many intervals after the seed**, and nothing in a broken week. -/
theorem civilCandidates_of_after? (plain : r.parts.Plain) (hc : r.incrementStart? root k = some c)
    (dateOnly : Bool) : r.civilCandidates root c dateOnly =
      if r.InBrokenWeek c then [] else (r.after? root k).toList := by
  rcases r.le_weekly_or_months with rank | hf
  · rw [after?_of_le rank, hc]
    by_cases weekly : r.frequency = .weekly
    · rw [civilCandidates_of_week plain weekly (week_of_incrementStart?_weekly weekly hc).1]
      exact if_congr (and_iff_right weekly).symm rfl rfl
    · have short : r.frequency.rank ≤ Frequency.daily.rank := by
        cases hr : r.frequency <;> simp_all [Frequency.rank]
      rw [civilCandidates_of_plain plain short, if_neg fun broken => weekly broken.1]
      rfl
  · obtain ⟨months, -, -, h⟩ := exists_months hf
    rw [(h root k).1] at hc
    have weekly : r.frequency ≠ .weekly := by
      rcases hf with hf | hf <;> rw [hf] <;> decide
    rw [civilCandidates_of_months plain hf hc, if_neg fun broken => weekly broken.1, (h root k).2]

/-- **So it is with its values.** -/
theorem candidates_of_plain (plain : r.parts.Plain) (hs : seed.zone? = none)
    (hc : r.incrementStart? seed.localTime k = some c) : (r.occurrences seed).candidates c =
      if r.InBrokenWeek c then [] else (r.repeat? seed k).toList := by
  have value : r.valueAt? seed none = seed.withCivil r.settings.gapPolicy :=
    funext fun c => r.valueAt?_none seed c
  rw [Series.candidates_of_unzoned (s := r.occurrences seed) hs]
  show ascending (Comparator.forSeed seed).key ((r.civilCandidates seed.localTime c _).filterMap
    (r.valueAt? seed none)) = _
  rw [civilCandidates_of_after? plain hc, value]
  by_cases broken : r.InBrokenWeek c
  · rw [if_pos broken, if_pos broken]
    exact ascending_toList _ none
  · rw [if_neg broken, if_neg broken, ← ascending_toList (Comparator.forSeed seed).key,
      filterMap_toList]
    rfl

end Rule

/-! ## 4. Series -/

/-- Without a guard, what lies ahead are the candidates of one increment after the other. -/
theorem Series.ahead_eq_flatMap {s : Series} (hguard : s.rule.settings.guard? = none) (k empties : Nat) :
    s.ahead k empties = (List.range' k (horizon - k)).flatMap fun j =>
      (s.rule.incrementStart? s.origin j).elim [] s.candidates := by
  fun_induction s.ahead k empties with
  | case1 k empties full =>
    rw [hguard] at full
    cases full
  | case2 k empties _ none =>
    refine (List.flatMap_eq_nil_iff.mpr fun j hj => ?_).symm
    rw [Rule.incrementStart?_eq_none_of_le (List.mem_range'_1.mp hj).1 none]
    rfl
  | case3 k empties _ period hp ih =>
    have nearer := Rule.incrementStart?_lt_horizon hp
    have left : horizon - k = horizon - (k + 1) + 1 := by omega
    rw [left, List.range'_succ, List.flatMap_cons, hp, Option.elim_some, ih]

/-- Of the numbers below a bound, what each from a number on gives. -/
theorem flatMap_range_eq {β : Type} (bound first : Nat) (f : Nat → Option β) :
    ((List.range bound).flatMap fun j => if j < first then [] else (f j).toList) =
      ((List.range bound).drop first).filterMap f := by
  have before : ∀ j ∈ (List.range bound).take first,
      (if j < first then [] else (f j).toList) = [] := fun j hj => if_pos <| by
    rw [List.take_range, List.mem_range] at hj
    omega
  have behind : ∀ j ∈ (List.range bound).drop first,
      (if j < first then [] else (f j).toList) = (f j).toList := fun j hj => if_neg <| by
    rw [List.range_eq_range', List.drop_range', List.mem_range'_1] at hj
    omega
  calc (List.range bound).flatMap (fun j => if j < first then [] else (f j).toList)
      = ((List.range bound).take first).flatMap (fun j => if j < first then [] else (f j).toList) ++
          ((List.range bound).drop first).flatMap
            fun j => if j < first then [] else (f j).toList := by
        rw [← List.flatMap_append, List.take_append_drop]
    _ = ((List.range bound).drop first).flatMap fun j => (f j).toList := by
        rw [List.flatMap_eq_nil_iff.mpr before, List.nil_append, List.flatMap_congr behind]
    _ = ((List.range bound).drop first).filterMap f := (List.filterMap_eq_flatMap_toList _ _).symm

namespace Rule

variable {r : Rule} {seed : Temporal}

theorem repeat?_zero (r : Rule) (hs : seed.zone? = none) : r.repeat? seed 0 = some seed := by
  unfold repeat?
  rw [after?_zero, Option.bind_some, Temporal.withCivil_eq_some_iff hs]
  refine ⟨⟨rfl, rfl⟩, ?_⟩
  split <;> rfl

/-- Where increments end, repetitions do. -/
theorem repeat?_eq_none {k : Nat} (none : r.incrementStart? seed.localTime k = Option.none) :
    r.repeat? seed k = Option.none := by
  unfold repeat?
  rw [after?_eq_none none, Option.bind_none]

/-- There are no more repetitions than the horizon. -/
theorem repeat?_of_horizon_le {k : Nat} (late : horizon ≤ k) : r.repeat? seed k = none :=
  repeat?_eq_none <| Option.eq_none_iff_forall_ne_some.mpr fun _ hc =>
    absurd (incrementStart?_lt_horizon hc) (Nat.not_lt.mpr late)

/-- The number of the first increment that a rule without a BY part lists from a seed on. -/
def firstListed (r : Rule) (seed : Temporal) : Nat := if r.InBrokenWeek seed.localTime then 1 else 0

/-- Only the first increment can lie in a broken week. -/
theorem inBrokenWeek_iff {c : Civil} {k : Nat} (hc : r.incrementStart? seed.localTime k = some c) :
    r.InBrokenWeek c ↔ k < r.firstListed seed := by
  unfold firstListed
  rcases Nat.eq_zero_or_pos k with rfl | later
  · rw [incrementStart?_zero] at hc
    cases hc
    by_cases broken : r.InBrokenWeek seed.localTime
    · rw [if_pos broken]
      exact ⟨fun _ => Nat.one_pos, fun _ => broken⟩
    · rw [if_neg broken]
      exact ⟨fun h => absurd h broken, fun h => absurd h (Nat.lt_irrefl 0)⟩
  · constructor
    · intro ⟨weekly, broken⟩
      have begins := begins_of_incrementStart?_weekly weekly hc (.inr later)
      exact absurd broken (Int.not_lt.mpr begins)
    · intro less
      split at less
      · omega
      · omega

/-- **What lies ahead of a seed are its repetitions.** -/
theorem ahead_of_plain (plain : r.parts.Plain) (hguard : r.settings.guard? = none)
    (hs : seed.zone? = none) : (r.occurrences seed).ahead 0 0 =
      ((List.range horizon).drop (r.firstListed seed)).filterMap (r.repeat? seed) := by
  have origin : (r.occurrences seed).origin = seed.localTime := Series.origin_of_unzoned hs
  rw [Series.ahead_eq_flatMap (s := r.occurrences seed) hguard, origin, ← flatMap_range_eq,
    List.range_eq_range', Nat.sub_zero]
  refine List.flatMap_congr fun k _ => ?_
  show (r.incrementStart? seed.localTime k).elim [] _ = _
  cases hc : r.incrementStart? seed.localTime k with
  | none =>
    rw [repeat?_eq_none hc]
    exact (ite_self []).symm
  | some c =>
    rw [Option.elim_some, candidates_of_plain plain hs hc]
    exact if_congr (inBrokenWeek_iff hc) rfl rfl

/-- **A later repetition is later.** -/
theorem key_lt_of_repeat? (hs : seed.zone? = none)
    (hunit : seed.isDateTime = true ∨ Frequency.daily.rank ≤ r.frequency.rank) {i j : Nat}
    {a b : Temporal} (lt : i < j) (ha : r.repeat? seed i = some a) (hb : r.repeat? seed j = some b) :
    (Comparator.forSeed seed).key a < (Comparator.forSeed seed).key b := by
  obtain ⟨c, hc, ha⟩ := Option.bind_eq_some_iff.mp ha
  obtain ⟨d, hd, hb⟩ := Option.bind_eq_some_iff.mp hb
  obtain ⟨stamp, day⟩ := rises_of_after? lt hc hd
  rw [Temporal.key_of_withCivil hs ha, Temporal.key_of_withCivil hs hb]
  by_cases time : seed.isDateTime = true
  · rw [if_pos time, if_pos time]
    exact stamp
  · rw [if_neg time, if_neg time]
    exact day (hunit.resolve_left time)

/-- With a skip policy that moves days, every increment has a repetition. -/
theorem repeat?_isSome_iff (hs : seed.zone? = none) (moves : r.skip ≠ .leaveOut) (k : Nat) :
    (r.repeat? seed k).isSome ↔ (r.incrementStart? seed.localTime k).isSome := by
  have values : (r.repeat? seed k).isSome ↔ (r.after? seed.localTime k).isSome := by
    unfold repeat?
    cases r.after? seed.localTime k with
    | none => exact Iff.rfl
    | some c => exact iff_of_true (Temporal.withCivil_isSome hs c) rfl
  rw [values]
  rcases r.le_weekly_or_months with rank | hf
  · rw [after?_of_le rank]
  · refine ⟨fun some' => ?_, fun some' => ?_⟩
    · refine Option.isSome_iff_ne_none.mpr fun none => ?_
      rw [after?_eq_none none] at some'
      cases some'
    · obtain ⟨months, -, -, h⟩ := exists_months hf
      obtain ⟨c, hc⟩ := Option.isSome_iff_exists.mp some'
      rw [(h _ k).1] at hc
      have index := Date.monthIndex_of_addMonths? (Civil.date_of_addMonths? hc)
      have year := c.date.year_eq_monthIndex_div
      obtain ⟨low, high⟩ := c.date.year_within
      rw [year, index] at low high
      have one := seed.localTime.date.fields_spec.2.2.1
      have most := Nat.le_trans seed.localTime.date.dayOfMonth_le_lengthAt (Date.lengthAt_le _)
      have day := Date.inMonth?_isSome low high moves one most
      rw [(h _ k).2]
      unfold dayAfter?
      rwa [Option.isSome_map]

/-- **A rule without a BY part moves its seed on by 0, 1, 2, … intervals.** On a seed without a zone,
    and with a time of day if the units are less than a day, such a rule without an end or a guard has
    in ascending order what comes so many intervals after the seed, each counted from the seed. A month
    without the day of the seed has nothing, the first of the next month or its own last day, as the
    skip policy says, and if the policy moves days then every increment has its own occurrence. Only the
    seed itself is left out, of a weekly rule whose first week begins before the calendar. -/
theorem occurrences_of_plain (r : Rule) (plain : r.parts.Plain) (hend : r.parts.ending = none)
    (hguard : r.settings.emptyLimit ≤ 0) {seed : Temporal} (hs : seed.zone? = none)
    (hunit : seed.isDateTime = true ∨ Frequency.daily.rank ≤ r.frequency.rank) :
    (r.occurrences seed).toList =
        ((List.range horizon).drop (r.firstListed seed)).filterMap (r.repeat? seed) ∧
      (∀ k, horizon ≤ k → r.repeat? seed k = none) ∧
      ((r.occurrences seed).toList.Pairwise fun a b => (Comparator.forSeed seed).before a b = true) ∧
      (r.skip ≠ .leaveOut →
        ∀ k, (r.repeat? seed k).isSome ↔ (r.incrementStart? seed.localTime k).isSome) := by
  have guard : r.settings.guard? = none := if_neg (Int.not_lt.mpr hguard)
  have ascends : (((List.range horizon).drop (r.firstListed seed)).filterMap (r.repeat? seed)).Pairwise
      fun a b => (Comparator.forSeed seed).key a < (Comparator.forSeed seed).key b := by
    refine List.pairwise_filterMap.mpr ?_
    refine (List.pairwise_lt_range.sublist (List.drop_sublist _ _)).imp fun lt a ha b hb => ?_
    exact key_lt_of_repeat? hs hunit lt ha hb
  have fromSeed : ∀ a ∈ ((List.range horizon).drop (r.firstListed seed)).filterMap (r.repeat? seed),
      (Comparator.forSeed seed).key seed - 1 < (Comparator.forSeed seed).key a := by
    intro a ha
    obtain ⟨k, -, hk⟩ := List.mem_filterMap.mp ha
    have zero := r.repeat?_zero hs
    rcases Nat.eq_zero_or_pos k with rfl | later
    · cases zero.symm.trans hk
      omega
    · have := key_lt_of_repeat? hs hunit later zero hk
      omega
  have all : (r.occurrences seed).toList =
      ((List.range horizon).drop (r.firstListed seed)).filterMap (r.repeat? seed) := by
    rw [occurrences_of_none hend]
    unfold Series.course
    rw [ahead_of_plain plain guard hs]
    exact climb_eq_self ascends fromSeed
  refine ⟨all, fun k => repeat?_of_horizon_le, ?_, repeat?_isSome_iff hs⟩
  rw [all]
  exact ascends.imp Comparator.before_iff.mpr

/-- Month after month, on the first of the next one where the day is missing. -/
def monthsMovedForward : Rule where
  frequency := .monthly
  parts := { RuleParts.none with scale := some .gregorian, skip := some .forward }
  settings := { Settings.standard with emptyLimit := 0 }
  valid := by decide

/-- From 31 January 2024 on, at nine in the morning. -/
theorem occurrences_of_monthsMovedForward :
    let seed : Temporal := .floating ⟨63873910800, false, by decide, by decide⟩
    (monthsMovedForward.parts.Plain ∧ monthsMovedForward.parts.ending = none ∧
        monthsMovedForward.settings.emptyLimit ≤ 0 ∧ seed.zone? = none ∧
        (seed.isDateTime = true ∨ Frequency.daily.rank ≤ monthsMovedForward.frequency.rank) ∧
        monthsMovedForward.skip ≠ .leaveOut) ∧
      (monthsMovedForward.occurrences seed).toList =
        ((List.range horizon).drop (monthsMovedForward.firstListed seed)).filterMap
          (monthsMovedForward.repeat? seed) ∧
      (∀ k, horizon ≤ k → monthsMovedForward.repeat? seed k = none) ∧
      ((monthsMovedForward.occurrences seed).toList.Pairwise fun a b =>
        (Comparator.forSeed seed).before a b = true) ∧
      ∀ k, (monthsMovedForward.repeat? seed k).isSome ↔
        (monthsMovedForward.incrementStart? seed.localTime k).isSome := by
  intro seed
  have plain : monthsMovedForward.parts.Plain := ⟨rfl, rfl, rfl, rfl, rfl, rfl, rfl, rfl, rfl⟩
  have moves : monthsMovedForward.skip ≠ .leaveOut := by decide
  have unzoned : seed.zone? = none := rfl
  obtain ⟨all, ends, ascends, each⟩ :=
    occurrences_of_plain monthsMovedForward plain rfl (Int.le_refl 0) unzoned (.inl rfl)
  exact ⟨⟨plain, rfl, Int.le_refl 0, rfl, .inl rfl, moves⟩, all, ends, ascends, each moves⟩

/-- February has no 31st, so the second occurrence is on 1 March, and the third on its own 31st. -/
example :
    let seed : Temporal := .date ⟨739281, by decide, by decide⟩
    monthsMovedForward.repeat? seed 1 = some (.date ⟨739311, by decide, by decide⟩) ∧
      monthsMovedForward.repeat? seed 2 = some (.date ⟨739341, by decide, by decide⟩) := by
  decide

/-- Week after week. -/
def everyWeek : Rule where
  frequency := .weekly
  parts := RuleParts.none
  settings := { Settings.standard with emptyLimit := 0 }
  valid := by decide

/-- **A seed in the broken first week of the calendar is left out**: at nine in the morning of its second
    day, a Friday, for the week begins on a Monday before the calendar. -/
theorem seed_in_brokenWeek_left_out :
    let seed : Temporal := .floating ⟨(firstDay + 1) * 86400 + 32400, false, by decide, by decide⟩
    (everyWeek.parts.Plain ∧ everyWeek.parts.ending = none ∧ everyWeek.settings.emptyLimit ≤ 0 ∧
        seed.zone? = none ∧ seed.isDateTime = true) ∧
      (everyWeek.occurrences seed).toList ≠ (List.range horizon).filterMap (everyWeek.repeat? seed) := by
  intro seed
  have plain : everyWeek.PlainByWeekday :=
    ⟨⟨rfl, rfl, rfl, rfl, rfl⟩, rfl, rfl, rfl, rfl, rfl, rfl⟩
  refine ⟨⟨⟨rfl, rfl, rfl, rfl, rfl, rfl, rfl, rfl, rfl⟩, rfl, Int.le_refl 0, rfl, rfl⟩, fun same => ?_⟩
  have first : seed ∈ (List.range horizon).filterMap (everyWeek.repeat? seed) :=
    List.mem_filterMap.mpr ⟨0, List.mem_range.mpr (by decide), everyWeek.repeat?_zero rfl⟩
  rw [← same, plain.mem_toList_iff rfl (.inr (by decide))] at first
  exact absurd first.begins (by decide)

end Rule

end Almanac
