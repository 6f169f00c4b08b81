import Almanac.Proofs.Rule.Days

/-!
# The times of day that a rule takes

Once the days are known, the stages for hour, minute and second set the clock. In a rule of days or
longer all three take what they list, whatever the frequency (`RuleParts.clockStages`). This file
fixes

* **a chain of stages leads from one civil time to others** (`Leads`), and what stages find in a
  list is what they lead to from one of its members (`Rule.mem_foldl_runStage_iff`);
* a stage that sets the clock leaves date and leap mark alone, and takes no notice of the mark
  (`ClockStage`);
* so **the civil times of an increment are the accepted days of its unit, each at all listed times
  of day** (`Rule.mem_civilCandidates_iff`);
* field by field, **the clock takes what is listed or stays** (`Rule.leads_clock_iff`), and what belongs to
  the unit of a rule of days or less stays anyway (`Rule.unitIndex_eq_iff`).
-/

namespace Almanac

variable {c x : Civil} {stages : List (Civil → List Civil)}

/-! ## 1. Stages one after the other -/

/-- Stages lead from one civil time to another: each takes up what the one before has found. -/
def Leads : List (Civil → List Civil) → Civil → Civil → Prop
  | [], c, x => x = c
  | stage :: rest, c, x => ∃ b ∈ stage c, Leads rest b x

theorem leads_append {front back : List (Civil → List Civil)} :
    Leads (front ++ back) c x ↔ ∃ b, Leads front c b ∧ Leads back b x := by
  induction front generalizing c with
  | nil => exact ⟨fun h => ⟨c, rfl, h⟩, fun ⟨b, (same : b = c), h⟩ => same ▸ h⟩
  | cons stage rest ih =>
    constructor
    · intro ⟨a, ha, h⟩
      obtain ⟨b, hb, h⟩ := ih.mp h
      exact ⟨b, ⟨a, ha, hb⟩, h⟩
    · intro ⟨b, ⟨a, ha, hb⟩, h⟩
      exact ⟨a, ha, ih.mpr ⟨b, hb, h⟩⟩

/-- **What stages find in a list is what they lead to from its members.** -/
theorem Rule.mem_foldl_runStage_iff (times : List Civil) :
    x ∈ stages.foldl runStage times ↔ ∃ c ∈ times, Leads stages c x := by
  induction stages generalizing times with
  | nil => exact ⟨fun h => ⟨x, h, rfl⟩, fun ⟨c, hc, (same : x = c)⟩ => same ▸ hc⟩
  | cons stage rest ih =>
    rw [List.foldl_cons, ih]
    constructor
    · rintro ⟨b, hb, leads⟩
      obtain ⟨c, hc, hb⟩ := mem_runStage_iff.mp hb
      exact ⟨c, hc, b, hb, leads⟩
    · rintro ⟨c, hc, b, hb, leads⟩
      exact ⟨b, mem_runStage_iff.mpr ⟨c, hc, hb⟩, leads⟩

/-! ## 2. Stages that set the clock -/

/-- A stage that sets the clock: it leaves date and leap mark alone, and finds the same stamps
    whether the mark is there or not. -/
structure ClockStage (stage : Civil → List Civil) : Prop where
  date : ∀ c, ∀ x ∈ stage c, x.date = c.date
  leap : ∀ c, ∀ x ∈ stage c, x.leap = c.leap
  stamp : ∀ c, ∀ x ∈ stage c, ∀ c' : Civil, c'.stamp = c.stamp → ∃ x' ∈ stage c', x'.stamp = x.stamp

theorem Civil.leap_of_withSecondOfDay? {d : Civil} {second : Nat}
    (h : c.withSecondOfDay? second = some d) : d.leap = c.leap := by
  unfold withSecondOfDay? at h
  split at h
  · cases h
    rfl
  · cases h

namespace ClockStage

/-- A stage that takes listed values of a field below a bound sets the clock. -/
theorem of_byClock {get : Civil → Nat} {set? : Civil → Nat → Option Civil} (values : List Nat)
    (bound : Nat) (second : Fin 86400 → Nat → Nat)
    (h : ∀ c v, set? c v = if v < bound then c.withSecondOfDay? (second c.secondOfDay v) else none) :
    ClockStage (Rule.byClock true get set? values) := by
  have found : ∀ c x, x ∈ Rule.byClock true get set? values c ↔ ∃ v ∈ values, v < bound ∧
      c.withSecondOfDay? (second c.secondOfDay v) = some x := by
    intro c x
    unfold Rule.byClock
    rw [if_pos rfl, List.mem_filterMap]
    refine exists_congr fun v => and_congr_right fun _ => ?_
    rw [h]
    by_cases small : v < bound
    · rw [if_pos small, and_iff_right small]
    · rw [if_neg small]
      exact ⟨fun no => absurd no.symm (Option.some_ne_none x), fun both => absurd both.1 small⟩
  refine ⟨fun c x hx => ?_, fun c x hx => ?_, fun c x hx c' same => ?_⟩
  · obtain ⟨v, -, -, hx⟩ := (found c x).mp hx
    exact (Civil.stamp_of_withSecondOfDay? hx).2.1
  · obtain ⟨v, -, -, hx⟩ := (found c x).mp hx
    exact Civil.leap_of_withSecondOfDay? hx
  · obtain ⟨v, mem, small, hx⟩ := (found c x).mp hx
    have clocks : c'.secondOfDay = c.secondOfDay := by
      apply Fin.ext
      have := c'.secondOfDay_eq
      have := c.secondOfDay_eq
      rw [same] at *
      omega
    obtain ⟨lt, -, stamp⟩ := Civil.stamp_of_withSecondOfDay? hx
    obtain ⟨x', hx'⟩ : ∃ x', c'.withSecondOfDay? (second c'.secondOfDay v) = some x' := by
      rw [clocks]
      exact ⟨_, dif_pos lt⟩
    refine ⟨x', (found c' x').mpr ⟨v, mem, small, hx'⟩, ?_⟩
    rw [(Civil.stamp_of_withSecondOfDay? hx').2.2, stamp, same, clocks]

/-- What each of several stages leaves alone, they leave alone together, and they take no more
    notice of the leap mark. -/
theorem leads (hs : ∀ stage ∈ stages, ClockStage stage) (h : Leads stages c x) :
    x.date = c.date ∧ x.leap = c.leap ∧
      ∀ c' : Civil, c'.stamp = c.stamp → ∃ x', Leads stages c' x' ∧ x'.stamp = x.stamp := by
  induction stages generalizing c with
  | nil =>
    cases (show x = c from h)
    exact ⟨rfl, rfl, fun c' same => ⟨c', rfl, same⟩⟩
  | cons stage rest ih =>
    obtain ⟨b, hb, more⟩ := h
    have first := hs stage List.mem_cons_self
    obtain ⟨date, leap, stamp⟩ := ih (fun s h => hs s (List.mem_cons_of_mem stage h)) more
    refine ⟨date.trans (first.date c b hb), leap.trans (first.leap c b hb), fun c' same => ?_⟩
    obtain ⟨b', hb', same'⟩ := first.stamp c b hb c' same
    obtain ⟨x', more', same''⟩ := stamp b' same'
    exact ⟨x', ⟨b', hb', more'⟩, same''⟩

end ClockStage

/-! ## 3. Times of day -/

/-- The stages for the time of day of a rule of days or longer; a seed that is a date has none. -/
def RuleParts.clockStages (p : RuleParts) (dateOnly : Bool) : List (Civil → List Civil) :=
  if dateOnly then []
  else
    Rule.stageOf p.hours (Rule.byClock true Civil.hour Civil.withHour? p.hours) ++
      Rule.stageOf p.minutes (Rule.byClock true Civil.minute Civil.withMinute? p.minutes) ++
      Rule.stageOf p.seconds (Rule.byClock true Civil.second Civil.withSecond? p.seconds)

theorem RuleParts.clockStage_of_mem {p : RuleParts} {dateOnly : Bool} {stage : Civil → List Civil}
    (h : stage ∈ p.clockStages dateOnly) : ClockStage stage := by
  unfold clockStages at h
  split at h
  · cases h
  · simp only [List.mem_append] at h
    rcases h with (h | h) | h
    · rw [Rule.mem_stageOf h]
      exact .of_byClock p.hours 24 (fun s v => v * 3600 + s.val % 3600) fun _ _ => rfl
    · rw [Rule.mem_stageOf h]
      exact .of_byClock p.minutes 60 (fun s v => s.val / 3600 * 3600 + v * 60 + s.val % 60)
        fun _ _ => rfl
    · rw [Rule.mem_stageOf h]
      exact .of_byClock p.seconds 60 (fun s v => s.val / 60 * 60 + v) fun _ _ => rfl

/-- **A time of day lies on its day, and is a leap second if the clock stood at one.** -/
theorem RuleParts.leads_clockStages {p : RuleParts} {dateOnly : Bool}
    (h : Leads (p.clockStages dateOnly) c x) :
    x.date = c.date ∧ x.leap = c.leap ∧ ∀ c' : Civil, c'.stamp = c.stamp →
      ∃ x', Leads (p.clockStages dateOnly) c' x' ∧ x'.stamp = x.stamp :=
  ClockStage.leads (fun _ => clockStage_of_mem) h

namespace Rule

variable {r : Rule}

/-- A rule that takes days steps through days or longer units. -/
theorem TakesDays.rank_le (hr : r.TakesDays) : Frequency.daily.rank ≤ r.frequency.rank := by
  rcases hr with hf | hf | ⟨hf, -⟩
  · rw [hf]
  · rw [hf]
    decide
  · rw [hf]
    decide

/-- In a rule of days or longer all stages for the clock take what they list. -/
theorem clockStages_eq (rank : Frequency.daily.rank ≤ r.frequency.rank) (dateOnly : Bool) :
    (if dateOnly then []
      else stageOf r.parts.hours r.byHour ++ stageOf r.parts.minutes r.byMinute ++
        stageOf r.parts.seconds r.bySecond) = r.parts.clockStages dateOnly := by
  have hour : decide (Frequency.daily.rank ≤ r.frequency.rank) = true := decide_eq_true rank
  have minute : decide (Frequency.hourly.rank ≤ r.frequency.rank) = true :=
    decide_eq_true (Nat.le_trans (by decide) rank)
  have second : decide (Frequency.minutely.rank ≤ r.frequency.rank) = true :=
    decide_eq_true (Nat.le_trans (by decide) rank)
  unfold RuleParts.clockStages byHour byMinute bySecond
  rw [hour, minute, second]

/-- A rule that names its days finds the days first, and then the times of day. -/
theorem stages_eq (h : r.NamesDays) (root : Civil) (dateOnly : Bool) :
    r.stages root dateOnly = r.dayStages ++ r.parts.clockStages dateOnly := by
  unfold stages dayStages
  rw [monthDaysFor_of_not h.not_repeatsMonthDay, daysFor_of_not h.not_repeatsWeekday,
    ← clockStages_eq h.takes.rank_le]

/-- **The civil times of an increment are the accepted days of its unit, each at all listed times of
    day.** -/
theorem mem_civilCandidates_iff (h : r.NamesDays) (hpos : r.parts.positions = []) {root period : Civil}
    (early : period.date.year < lastYear) {dateOnly : Bool} :
    x ∈ r.civilCandidates root period dateOnly ↔
      ∃ c, (c.clock = period.clock ∧ r.unitIndex c = r.unitIndex period ∧
        r.accepts c.date = true) ∧ Leads (r.parts.clockStages dateOnly) c x := by
  unfold civilCandidates byPosition
  rw [hpos, if_pos List.isEmpty_nil, stages_eq h, List.foldl_append, mem_foldl_runStage_iff]
  simp only [mem_dayStages_iff h early]

/-! ## 4. Fields of the clock -/

/-- A field that takes the values that are listed for it, or else stays what it was. -/
def Takes (values : List Nat) (old new : Nat) : Prop :=
  if values = [] then new = old else new ∈ values

instance (values : List Nat) (old new : Nat) : Decidable (Takes values old new) :=
  inferInstanceAs (Decidable (ite _ _ _))

/-- **A stage for a field of the clock** takes what is listed and leaves the other fields alone; where it
    only limits, the field stays too. -/
theorem leads_byClock {expands : Bool} {get : Civil → Nat} {set? : Civil → Nat → Option Civil}
    (others : Civil → Civil → Prop) (values : List Nat)
    (sets : ∀ c v x, set? c v = some x ↔ get x = v ∧ others c x)
    (same : ∀ c x, x = c ↔ get x = get c ∧ others c x) :
    Leads (stageOf values (byClock expands get set? values)) c x ↔
      (Takes values (get c) (get x) ∧ (expands = false → get x = get c)) ∧ others c x := by
  unfold Takes stageOf
  by_cases none : values = []
  · rw [if_pos none, none, if_pos List.isEmpty_nil]
    refine (same c x).trans (and_congr_left fun _ => ?_)
    exact ⟨fun own => ⟨own, fun _ => own⟩, And.left⟩
  · rw [if_neg none, if_neg (by rwa [List.isEmpty_iff])]
    have one : Leads [byClock expands get set? values] c x ↔
        x ∈ byClock expands get set? values c :=
      ⟨fun ⟨b, hb, (own : x = b)⟩ => own ▸ hb, fun hx => ⟨x, hx, rfl⟩⟩
    rw [one]
    unfold byClock
    cases expands with
    | true =>
      rw [if_pos rfl, List.mem_filterMap]
      constructor
      · intro ⟨v, mem, hx⟩
        obtain ⟨own, rest⟩ := (sets c v x).mp hx
        exact ⟨⟨own ▸ mem, nofun⟩, rest⟩
      · intro ⟨⟨mem, _⟩, rest⟩
        exact ⟨get x, mem, (sets c (get x) x).mpr ⟨rfl, rest⟩⟩
    | false =>
      rw [if_neg Bool.false_ne_true, mem_keepIf, same c x]
      simp only [List.contains_iff_mem, forall_const]
      constructor
      · intro ⟨⟨own, rest⟩, mem⟩
        exact ⟨⟨own ▸ mem, own⟩, rest⟩
      · intro ⟨⟨mem, own⟩, rest⟩
        exact ⟨⟨own, rest⟩, own ▸ mem⟩

/-- What a rule takes at a civil time: on the fields of its clock, and at no leap second but its own. -/
structure TakesClock (r : Rule) (c x : Civil) : Prop where
  hour : Takes r.parts.hours c.hour x.hour
  minute : Takes r.parts.minutes c.minute x.minute
  second : Takes r.parts.seconds c.second x.second
  leap : x.leap = c.leap

/-- The fields of the clock that belong to the unit of a rule of days or less. -/
structure SameClock (r : Rule) (c x : Civil) : Prop where
  hour : r.frequency.rank < Frequency.daily.rank → x.hour = c.hour
  minute : r.frequency.rank < Frequency.hourly.rank → x.minute = c.minute
  second : r.frequency.rank < Frequency.minutely.rank → x.second = c.second

theorem leads_byHour (r : Rule) : Leads (stageOf r.parts.hours r.byHour) c x ↔
    (Takes r.parts.hours c.hour x.hour ∧
      (decide (Frequency.daily.rank ≤ r.frequency.rank) = false → x.hour = c.hour)) ∧
    x.minute = c.minute ∧ x.second = c.second ∧ x.date = c.date ∧ x.leap = c.leap := by
  refine leads_byClock (fun c x => x.minute = c.minute ∧ x.second = c.second ∧ x.date = c.date ∧
    x.leap = c.leap) r.parts.hours (fun _ _ _ => Civil.withHour?_eq_some_iff) fun c x => ⟨?_, ?_⟩
  · intro own
    rw [own]
    exact ⟨rfl, rfl, rfl, rfl, rfl⟩
  · intro ⟨hour, minute, second, date, leap⟩
    exact Civil.ext_fields date hour minute second leap

theorem leads_byMinute (r : Rule) : Leads (stageOf r.parts.minutes r.byMinute) c x ↔
    (Takes r.parts.minutes c.minute x.minute ∧
      (decide (Frequency.hourly.rank ≤ r.frequency.rank) = false → x.minute = c.minute)) ∧
    x.hour = c.hour ∧ x.second = c.second ∧ x.date = c.date ∧ x.leap = c.leap := by
  refine leads_byClock (fun c x => x.hour = c.hour ∧ x.second = c.second ∧ x.date = c.date ∧
    x.leap = c.leap) r.parts.minutes (fun _ _ _ => Civil.withMinute?_eq_some_iff) fun c x => ⟨?_, ?_⟩
  · intro own
    rw [own]
    exact ⟨rfl, rfl, rfl, rfl, rfl⟩
  · intro ⟨minute, hour, second, date, leap⟩
    exact Civil.ext_fields date hour minute second leap

theorem leads_bySecond (r : Rule) : Leads (stageOf r.parts.seconds r.bySecond) c x ↔
    (Takes r.parts.seconds c.second x.second ∧
      (decide (Frequency.minutely.rank ≤ r.frequency.rank) = false → x.second = c.second)) ∧
    x.hour = c.hour ∧ x.minute = c.minute ∧ x.date = c.date ∧ x.leap = c.leap := by
  refine leads_byClock (fun c x => x.hour = c.hour ∧ x.minute = c.minute ∧ x.date = c.date ∧
    x.leap = c.leap) r.parts.seconds (fun _ _ _ => Civil.withSecond?_eq_some_iff) fun c x => ⟨?_, ?_⟩
  · intro own
    rw [own]
    exact ⟨rfl, rfl, rfl, rfl, rfl⟩
  · intro ⟨second, hour, minute, date, leap⟩
    exact Civil.ext_fields date hour minute second leap

/-- **The stages for the clock find the times of day that the lists name**, within the unit of the rule. -/
theorem leads_clock_iff (r : Rule) :
    Leads (stageOf r.parts.hours r.byHour ++ stageOf r.parts.minutes r.byMinute ++
      stageOf r.parts.seconds r.bySecond) c x ↔
        x.date = c.date ∧ r.TakesClock c x ∧ r.SameClock c x := by
  simp only [leads_append, leads_byHour, leads_byMinute, leads_bySecond, decide_eq_false_iff_not, Nat.not_le]
  constructor
  · intro ⟨b, ⟨a, ⟨⟨ha, sa⟩, am, as, ad, al⟩, ⟨hb, sb⟩, bh, bs, bd, bl⟩, ⟨hx, sx⟩, xh, xm, xd, xl⟩
    rw [am] at hb sb
    rw [bs, as] at hx sx
    refine ⟨xd.trans (bd.trans ad), ⟨?_, ?_, hx, xl.trans (bl.trans al)⟩, ⟨?_, ?_, sx⟩⟩
    · rw [xh, bh]
      exact ha
    · rw [xm]
      exact hb
    · rw [xh, bh]
      exact sa
    · rw [xm]
      exact sb
  · intro ⟨date, takes, stays⟩
    obtain ⟨ch, cm, cs⟩ := c.clock_bounds
    obtain ⟨xh, xm, xs⟩ := x.clock_bounds
    -- hour and minute are set before the second is
    obtain ⟨bh, bm, bs⟩ := Civil.clock_atClock c.date c.leap xh xm cs
    obtain ⟨ah, am, as⟩ := Civil.clock_atClock c.date c.leap xh cm cs
    refine ⟨Civil.atClock c.date x.hour x.minute c.second c.leap,
      ⟨Civil.atClock c.date x.hour c.minute c.second c.leap, ?_, ?_⟩, ?_⟩
    · rw [ah, am, as]
      exact ⟨⟨takes.hour, stays.hour⟩, rfl, rfl, Civil.date_ofDate _ _ _, rfl⟩
    · rw [ah, am, as, bh, bm, bs]
      exact ⟨⟨takes.minute, stays.minute⟩, rfl, rfl,
        (Civil.date_ofDate _ _ _).trans (Civil.date_ofDate _ _ _).symm, rfl⟩
    · rw [bh, bm, bs]
      exact ⟨⟨takes.second, stays.second⟩, rfl, rfl,
        date.trans (Civil.date_ofDate _ _ _).symm, takes.leap⟩

/-- In a rule of days or longer no field of the clock belongs to the unit. -/
theorem sameClock_of_le (rank : Frequency.daily.rank ≤ r.frequency.rank) : r.SameClock c x where
  hour less := absurd rank (Nat.not_le.mpr less)
  minute less := absurd (Nat.le_trans (by decide) rank) (Nat.not_le.mpr less)
  second less := absurd (Nat.le_trans (by decide) rank) (Nat.not_le.mpr less)

/-- **A unit of a day or less** is told by its date and the fields of the clock that belong to it. -/
theorem unitIndex_eq_iff (rank : r.frequency.rank ≤ Frequency.daily.rank) :
    r.unitIndex x = r.unitIndex c ↔ x.date = c.date ∧ r.SameClock c x := by
  have hx := x.secondOfDay_eq
  have hc := c.secondOfDay_eq
  have date : x.date = c.date ↔ x.stamp / 86400 = c.stamp / 86400 :=
    ⟨fun h => congrArg Date.day h, fun h => Date.ext h⟩
  have fields : r.SameClock c x ↔
      (r.frequency.rank < Frequency.daily.rank → x.hour = c.hour) ∧
      (r.frequency.rank < Frequency.hourly.rank → x.minute = c.minute) ∧
      (r.frequency.rank < Frequency.minutely.rank → x.second = c.second) :=
    ⟨fun h => ⟨h.hour, h.minute, h.second⟩, fun h => ⟨h.1, h.2.1, h.2.2⟩⟩
  rw [fields, date]
  unfold unitIndex Civil.hour Civil.minute Civil.second
  cases hf : r.frequency <;> rw [hf] at rank <;>
    simp only [Frequency.unitIndex, Frequency.rank, Civil.day_date, Nat.lt_irrefl, Nat.reduceLT,
      Nat.reduceLeDiff, true_imp_iff, false_imp_iff, and_true] at rank ⊢
  all_goals omega

end Rule

end Almanac
