import Almanac.Proofs.Rule.Clocks
import Almanac.Proofs.Series.Window

/-!
# Expanding and limiting agree

A yearly rule spreads every year over the days that its parts list, a monthly rule every month, and
a daily rule looks at each day and keeps it or not. This file shows that with the same parts they
come to the same values (`Rule.expanding_agrees_with_limiting`).

* Every unit from the seed on has an increment (`Rule.exists_incrementStart?`), and all increments
  show the second of the day of the seed (`Rule.secondOfDay_of_incrementStart?`).
* A value comes about from an increment, an accepted day of its unit and a listed time of that day
  (`Rule.Traced`). Day and time are there at every frequency, so what one frequency finds, every
  other finds at the same key (`Rule.exists_mem_dates`).
* **A leap second is the one thing that they treat differently.** Moving on by days leaves it for the
  second before it, moving on by months or years comes to a leap second again
  (`Rule.leap_of_mem_dates`).
-/

namespace Almanac

namespace Rule

variable {r : Rule} {origin c p : Civil} {k : Nat}

/-! ## 1. Increments -/

/-- In a rule that takes days no unit falls as dates go on. -/
theorem unitIndex_le_of_day_le (hr : r.TakesDays) (h : origin.date.day ≤ c.date.day) :
    r.unitIndex origin ≤ r.unitIndex c := by
  unfold unitIndex
  rcases hr with hf | hf | ⟨hf, -⟩
  · rw [hf]
    exact h
  · rw [hf]
    exact Date.year_le_of_day_le h
  · rw [hf]
    exact Date.monthIndex_le_of_day_le h

/-- Before the last year of the calendar no unit is the last one. -/
theorem exists_unitIndex_lt (hr : r.TakesDays) (early : c.date.year < lastYear) :
    ∃ t, r.unitIndex c < r.unitIndex t := by
  refine ⟨⟨lastStamp, false, by decide, by decide⟩, ?_⟩
  generalize ht : (⟨lastStamp, false, by decide, by decide⟩ : Civil) = t
  have day : t.date.day = lastDay := by
    rw [← ht]
    decide
  have year : t.date.year = lastYear := by
    rw [← ht]
    decide
  unfold unitIndex
  rcases hr with hf | hf | ⟨hf, -⟩
  · have room := Date.room early
    rw [hf]
    show c.date.day < t.date.day
    omega
  · rw [hf]
    show c.date.year < t.date.year
    rw [year]
    exact early
  · have own := c.date.year_eq_monthIndex_div
    have last := t.date.year_eq_monthIndex_div
    rw [hf]
    show c.date.monthIndex < t.date.monthIndex
    omega

/-- **Every unit from the origin on has an increment**, up to the last year of the calendar. -/
theorem exists_incrementStart? (hr : r.TakesDays) (hinterval : r.interval = 1)
    (early : c.date.year < lastYear) (from' : r.unitIndex origin ≤ r.unitIndex c) :
    ∃ k p, r.incrementStart? origin k = some p ∧ r.unitIndex p = r.unitIndex c := by
  obtain ⟨t, below⟩ := exists_unitIndex_lt hr early
  obtain ⟨k, hk⟩ := Int.eq_ofNat_of_zero_le (Int.sub_nonneg_of_le from')
  have unit : r.unitIndex origin + (k * r.interval : Nat) = r.unitIndex c := by
    rw [hinterval]
    omega
  have reach : r.frequency.unitIndex r.weekStart origin + (k * r.interval : Nat) <
      r.frequency.unitIndex r.weekStart t := by
    unfold unitIndex at unit below
    omega
  obtain ⟨p, hp⟩ := Option.isSome_iff_exists.mp (Frequency.advance?_isSome_of_lt reach)
  exact ⟨k, p, hp, (unitIndex_of_incrementStart? hp).trans unit⟩

/-- Moving on by months puts another date to the clock, leap second and all. -/
theorem clock_of_incrementStart? (hf : r.frequency = .yearly ∨ r.frequency = .monthly)
    (hp : r.incrementStart? origin k = some p) : p.clock = origin.clock := by
  have months : ∃ months : Int, origin.addMonths? months = some p := by
    unfold incrementStart? at hp
    rcases hf with hf | hf
    · rw [hf] at hp
      exact ⟨_, hp⟩
    · rw [hf] at hp
      exact ⟨_, hp⟩
  obtain ⟨months, hp⟩ := months
  unfold Civil.addMonths? at hp
  obtain ⟨d, -, rfl⟩ := Option.map_eq_some_iff.mp hp
  exact origin.clock_onDate d

/-- **Moving on by days keeps the second of the day, and leaves a leap second.** -/
theorem clock_of_daily (hf : r.frequency = .daily) (hp : r.incrementStart? origin k = some p) :
    p.secondOfDay = origin.secondOfDay ∧ (k = 0 ∧ p = origin ∨ 0 < k ∧ p.leap = false) := by
  rcases Nat.eq_zero_or_pos k with rfl | later
  · rw [incrementStart?_zero] at hp
    cases hp
    exact ⟨rfl, .inl ⟨rfl, rfl⟩⟩
  · unfold incrementStart? at hp
    rw [hf] at hp
    have far : 0 < k * r.interval := Nat.mul_pos later r.one_le_interval
    have moved : ((86400 * (k * r.interval) : Nat) : Int) ≠ 0 := by omega
    have hp : origin.addSeconds? (86400 * (k * r.interval) : Nat) = some p := by
      simpa [Frequency.advance?] using hp
    have stamp := Civil.stamp_of_addSeconds? hp
    refine ⟨?_, .inr ⟨later, ?_⟩⟩
    · apply Fin.ext
      have := p.secondOfDay_eq
      have := origin.secondOfDay_eq
      omega
    · unfold Civil.addSeconds? Civil.ofStamp? at hp
      rw [if_neg moved] at hp
      split at hp
      · cases hp
        rfl
      · cases hp

/-- All increments show the second of the day of their origin. -/
theorem secondOfDay_of_incrementStart? (hr : r.TakesDays)
    (hp : r.incrementStart? origin k = some p) : p.secondOfDay = origin.secondOfDay := by
  rcases hr with hf | hf | ⟨hf, -⟩
  · exact (clock_of_daily hf hp).1
  · exact (Prod.mk.inj (clock_of_incrementStart? (.inl hf) hp)).1
  · exact (Prod.mk.inj (clock_of_incrementStart? (.inr hf) hp)).1

/-- **All increments show the leap mark of their origin**, unless it is a leap second and the rule
    is daily. -/
theorem leap_of_incrementStart? (hr : r.TakesDays) (keeps : r.frequency ≠ .daily ∨ origin.leap = false)
    (hp : r.incrementStart? origin k = some p) : p.leap = origin.leap := by
  rcases hr with hf | hf | ⟨hf, -⟩
  · have plain := keeps.resolve_left fun not => not hf
    rcases (clock_of_daily hf hp).2 with ⟨-, same⟩ | ⟨-, leap⟩
    · rw [same]
    · rw [leap, plain]
  · exact (Prod.mk.inj (clock_of_incrementStart? (.inl hf) hp)).2
  · exact (Prod.mk.inj (clock_of_incrementStart? (.inr hf) hp)).2

/-- The date and the second of the day tell the stamp. -/
theorem stamp_eq_of_secondOfDay_eq {a b : Civil} (date : a.date = b.date)
    (second : a.secondOfDay = b.secondOfDay) : a.stamp = b.stamp := by
  have ha := a.secondOfDay_eq
  have hb := b.secondOfDay_eq
  have day : a.date.day = b.date.day := by rw [date]
  rw [second] at ha
  simp only [Civil.day_date] at day
  omega

/-- **Every day from the origin on lies in some increment**, at the second of the day that all
    increments show. -/
theorem exists_increment_of_day (hr : r.TakesDays) (hinterval : r.interval = 1)
    (early : c.date.year < lastYear) (from' : origin.date.day ≤ c.date.day)
    (second : c.secondOfDay = origin.secondOfDay) :
    ∃ k p d, r.incrementStart? origin k = some p ∧ d.clock = p.clock ∧
      r.unitIndex d = r.unitIndex p ∧ d.date = c.date ∧ d.stamp = c.stamp := by
  obtain ⟨k, p, hp, unit⟩ :=
    exists_incrementStart? hr hinterval early (unitIndex_le_of_day_le hr from')
  have clock := p.clock_onDate c.date
  have date := p.date_onDate c.date
  refine ⟨k, p, p.onDate c.date, hp, clock, ?_, date, ?_⟩
  · rw [unit]
    exact Frequency.unitIndex_eq_of_date_eq hr.rank_le date
  · refine stamp_eq_of_secondOfDay_eq date ?_
    rw [(Prod.mk.inj clock).1, secondOfDay_of_incrementStart? hr hp, second]

end Rule

/-! ## 2. What a window shows -/

namespace Temporal

variable {seed : Temporal} {policy : GapPolicy}

/-- A value without a zone has the date of the civil time behind it. -/
theorem toDate_of_withCivil (hs : seed.zone? = none) {c : Civil} {t : Temporal}
    (h : seed.withCivil policy c = some t) : t.toDate = c.date := by
  cases seed with
  | date _ =>
    cases h
    exact Civil.date_midnight c.date
  | floating _ =>
    cases h
    rfl
  | utc _ =>
    cases h
    rfl
  | zoned z => cases hs

/-- **A value is told by its key and its leap mark.** -/
theorem eq_of_key_eq (hs : seed.zone? = none) {a b : Temporal} (ha : a.SameKind seed)
    (hb : b.SameKind seed) (key : (Comparator.forSeed seed).key a = (Comparator.forSeed seed).key b)
    (leap : a.localTime.leap = b.localTime.leap) : a = b := by
  rw [Comparator.key_forSeed hs (ha.2.trans hs), Comparator.key_forSeed hs (hb.2.trans hs)] at key
  have ka := ha.1
  have kb := hb.1
  cases seed with
  | date _ =>
    cases a <;> cases ka
    cases b <;> cases kb
    have day : (Civil.midnight _).date.day = (Civil.midnight _).date.day := key
    rw [Civil.date_midnight, Civil.date_midnight] at day
    rw [Date.ext day]
  | floating _ =>
    cases a <;> cases ka
    cases b <;> cases kb
    exact congrArg floating (Civil.ext key leap)
  | utc _ =>
    cases a <;> cases ka
    cases b <;> cases kb
    exact congrArg utc (Civil.ext key leap)
  | zoned z => cases hs

/-- The leap mark of a civil time shows on its value, unless the value is a date. -/
theorem leap_of_withCivil (hs : seed.zone? = none) {c : Civil} {t : Temporal}
    (h : seed.withCivil policy c = some t) : t.localTime.leap = (seed.isDateTime && c.leap) := by
  cases seed with
  | date _ =>
    cases h
    rfl
  | floating _ =>
    cases h
    rfl
  | utc _ =>
    cases h
    rfl
  | zoned z => cases hs

theorem leap_localTime (t : Temporal) :
    t.localTime.leap = (t.isDateTime && t.localTime.leap) := by
  cases t <;> rfl

end Temporal

/-- What has no later key has no later date. -/
theorem Comparator.day_le_of_key_le {seed a b : Temporal} (hs : seed.zone? = none)
    (ha : a.zone? = none) (hb : b.zone? = none) (h : (forSeed seed).key a ≤ (forSeed seed).key b) :
    a.toDate.day ≤ b.toDate.day := by
  rw [key_forSeed hs ha, key_forSeed hs hb] at h
  split at h
  · show a.localTime.stamp / 86400 ≤ b.localTime.stamp / 86400
    omega
  · exact h

namespace Rule

variable {r : Rule} {origin c p : Civil} {seed stop x : Temporal}

/-- A rule that names its days, and shows every one of them. -/
structure ShowsAll (r : Rule) : Prop extends r.NamesDays where
  interval : r.interval = 1
  positions : r.parts.positions = []
  count : r.parts.count? = none
  guard : r.settings.emptyLimit ≤ 0

/-- **What such a rule lists from its seed on**: the candidates of all increments that are within
    the bounds, and each bound is told by the key. -/
theorem mem_dates_iff (h : r.ShowsAll) (hseed : seed.zone? = none) :
    x ∈ r.dates seed seed stop none ↔
      (∃ k p, r.incrementStart? seed.localTime k = some p ∧ x ∈ r.candidatesAt seed none p) ∧
        (Comparator.forSeed seed).key seed ≤ (Comparator.forSeed seed).key x ∧
        (Comparator.forSeed seed).key x ≤ (Comparator.forSeed seed).key stop ∧
        ∀ last ∈ r.parts.last?, (Comparator.forSeed seed).beyond last x = false := by
  have guard : r.settings.guard? = none := by
    unfold Settings.guard?
    rw [if_neg (Int.not_lt.mpr h.guard)]
  have open' : ∀ value ∈ (r.within seed seed stop).start, value.zone? = none := fun value h => by
    cases h
    exact hseed
  have inside : (r.within seed seed stop).inside x = true ↔
      (Comparator.forSeed seed).key seed ≤ (Comparator.forSeed seed).key x ∧
        (Comparator.forSeed seed).key x ≤ (Comparator.forSeed seed).key stop := by
    rw [Series.inside_iff]
    simp [Rule.within, Series.comparator, Comparator.before_eq_false_iff,
      Comparator.after_eq_false_iff]
  show x ∈ (r.within seed seed stop).toList ↔ _
  rw [Series.mem_toList_iff_of_unzoned hseed h.skip guard h.count open', inside,
    Series.exceedsLast_eq_false_iff]
  have origin := Series.origin_of_unzoned (s := r.within seed seed stop) hseed
  simp only [Series.candidates_of_unzoned (s := r.within seed seed stop) hseed, origin,
    Comparator.before_eq_false_iff, Series.comparator]
  constructor
  · rintro ⟨found, -, notBeyond, from', to'⟩
    exact ⟨found, from', to', notBeyond⟩
  · rintro ⟨found, from', to', notBeyond⟩
    exact ⟨found, from', notBeyond, from', to'⟩

/-- How a value comes about: from an increment an accepted day of its unit, and from the day the
    civil time of the value. -/
structure Traced (r : Rule) (seed x : Temporal) (p c cx : Civil) : Prop where
  clock : c.clock = p.clock
  unit : r.unitIndex c = r.unitIndex p
  accepted : r.accepts c.date = true
  leads : Leads (r.parts.clockStages !seed.isDateTime) c cx
  value : seed.withCivil r.settings.gapPolicy cx = some x

/-- **Every value comes about so**, on a date between those of the seed and the last one. -/
theorem exists_traced (h : r.ShowsAll) (hseed : seed.zone? = none) (hstop : stop.zone? = none)
    (early : stop.toDate.year < lastYear) (hx : x ∈ r.dates seed seed stop none) :
    ∃ k p c cx, r.incrementStart? seed.localTime k = some p ∧ r.Traced seed x p c cx ∧
      seed.toDate.day ≤ c.date.day ∧ c.date.year < lastYear := by
  obtain ⟨⟨k, p, hp, hx⟩, from', to', -⟩ := (mem_dates_iff h hseed).mp hx
  obtain ⟨cx, hcx, value⟩ := List.mem_filterMap.mp (mem_of_mem_ascending hx)
  rw [valueAt?_none] at value
  have unzoned := Temporal.unzoned_of_withCivil hseed value
  have low := Comparator.day_le_of_key_le hseed hseed unzoned from'
  have high := Date.year_le_of_day_le (Comparator.day_le_of_key_le hseed unzoned hstop to')
  rw [Temporal.toDate_of_withCivil hseed value] at low high
  have year := (fields_of_unitIndex_eq h.takes (unitIndex_of_mem_civilCandidates h.skip hcx)).1
  obtain ⟨c, ⟨clock, unit, accepted⟩, leads⟩ :=
    (mem_civilCandidates_iff h.toNamesDays h.positions (by omega)).mp hcx
  have date := (RuleParts.leads_clockStages leads).1
  rw [date] at low high
  exact ⟨k, p, c, cx, hp, ⟨clock, unit, accepted, leads, value⟩, low, by omega⟩

/-- And what comes about so has its key among the candidates. -/
theorem Traced.exists_mem (h : r.ShowsAll) {p c cx : Civil} (trace : r.Traced seed x p c cx)
    (early : c.date.year < lastYear) :
    ∃ y ∈ r.candidatesAt seed none p,
      (Comparator.forSeed seed).key y = (Comparator.forSeed seed).key x := by
  have year := (fields_of_unitIndex_eq h.takes trace.unit).1
  have found : cx ∈ r.civilCandidates seed.localTime p !seed.isDateTime :=
    (mem_civilCandidates_iff h.toNamesDays h.positions (by omega)).mpr
      ⟨c, ⟨trace.clock, trace.unit, trace.accepted⟩, trace.leads⟩
  refine exists_mem_ascending (List.mem_filterMap.mpr ⟨cx, found, ?_⟩)
  rw [valueAt?_none]
  exact trace.value

/-! ## 3. From one frequency to another -/

/-- The parts of a rule at another frequency. -/
def withFrequency (r : Rule) (f : Frequency) : Rule := { r with frequency := f }

/-- A day and a time of day are found by every frequency, in an increment of its own. -/
theorem Traced.withFrequency {f g : Frequency} (hf : (r.withFrequency f).ShowsAll)
    (hg : (r.withFrequency g).ShowsAll) (hseed : seed.zone? = none) {k : Nat} {p c cx : Civil}
    (hp : (r.withFrequency f).incrementStart? seed.localTime k = some p)
    (trace : (r.withFrequency f).Traced seed x p c cx) (from' : seed.toDate.day ≤ c.date.day)
    (early : c.date.year < lastYear) :
    ∃ k q d dy y, (r.withFrequency g).incrementStart? seed.localTime k = some q ∧
      (r.withFrequency g).Traced seed y q d dy ∧ d.date = c.date ∧ dy.stamp = cx.stamp := by
  have second : c.secondOfDay = seed.localTime.secondOfDay := by
    rw [(Prod.mk.inj trace.clock).1, secondOfDay_of_incrementStart? hf.takes hp]
  obtain ⟨k', q, d, hq, clock, unit, date, stamp⟩ :=
    exists_increment_of_day hg.takes hg.interval early from' second
  obtain ⟨dy, leads, same⟩ :=
    (RuleParts.leads_clockStages trace.leads).2.2 d stamp
  obtain ⟨y, value⟩ := Option.isSome_iff_exists.mp
    (@Temporal.withCivil_isSome seed r.settings.gapPolicy hseed dy)
  have accepted : (r.withFrequency g).accepts d.date = true := by
    rw [date]
    exact trace.accepted
  exact ⟨k', q, d, dy, y, hq, ⟨clock, unit, accepted, leads, value⟩, date, same⟩

/-- **What one frequency finds, another finds at the same key.** -/
theorem exists_mem_dates {f g : Frequency} (hf : (r.withFrequency f).ShowsAll)
    (hg : (r.withFrequency g).ShowsAll) (hseed : seed.zone? = none) (hstop : stop.zone? = none)
    (early : stop.toDate.year < lastYear)
    (hx : x ∈ (r.withFrequency f).dates seed seed stop none) :
    ∃ y ∈ (r.withFrequency g).dates seed seed stop none,
      (Comparator.forSeed seed).key y = (Comparator.forSeed seed).key x := by
  obtain ⟨⟨_, _, -, mem⟩, from', to', notBeyond⟩ := (mem_dates_iff hf hseed).mp hx
  obtain ⟨k, p, c, cx, hp, trace, low, year⟩ := exists_traced hf hseed hstop early hx
  obtain ⟨k', q, d, dz, z, hq, trace', date, stamp⟩ :=
    trace.withFrequency hf hg hseed hp low year
  obtain ⟨y, hy, key⟩ := trace'.exists_mem hg (by rw [date]; exact year)
  have keys : (Comparator.forSeed seed).key y = (Comparator.forSeed seed).key x := by
    rw [key, Temporal.key_of_withCivil hseed trace.value,
      Temporal.key_of_withCivil hseed trace'.value, stamp, Civil.day_date, Civil.day_date, stamp]
  refine ⟨y, (mem_dates_iff hg hseed).mpr ⟨⟨k', q, hq, hy⟩, ?_, ?_, fun last hlast => ?_⟩, keys⟩
  · rw [keys]
    exact from'
  · rw [keys]
    exact to'
  · refine eq_false_of_ne_true fun past => ?_
    have beyond := Comparator.beyond_of_key_le (.inr hseed) (sameKind_of_mem_candidatesAt hy)
      (sameKind_of_mem_candidatesAt mem) (Int.le_of_eq keys) past
    rw [notBeyond last hlast] at beyond
    cases beyond

/-- The leap mark of a value is that of its increment. -/
theorem Traced.leap (hseed : seed.zone? = none) {p c cx : Civil} (trace : r.Traced seed x p c cx) :
    x.localTime.leap = (seed.isDateTime && p.leap) := by
  have clock := (RuleParts.leads_clockStages trace.leads).2.1
  rw [Temporal.leap_of_withCivil hseed trace.value, clock, (Prod.mk.inj trace.clock).2]

/-- **What is listed is a leap second if the seed is one**, and only then, unless the rule is daily
    and its seed a leap second. -/
theorem leap_of_mem_dates (h : r.ShowsAll) (hseed : seed.zone? = none) (hstop : stop.zone? = none)
    (early : stop.toDate.year < lastYear)
    (keeps : r.frequency ≠ .daily ∨ seed.localTime.leap = false)
    (hx : x ∈ r.dates seed seed stop none) : x.localTime.leap = seed.localTime.leap := by
  obtain ⟨k, p, c, cx, hp, trace, -, -⟩ := exists_traced h hseed hstop early hx
  rw [trace.leap hseed, leap_of_incrementStart? h.takes keeps hp, ← Temporal.leap_localTime]

/-- **After the day of its seed a daily rule lists no leap second.** -/
theorem leap_of_mem_daily (h : r.ShowsAll) (daily : r.frequency = .daily) (hseed : seed.zone? = none)
    (hstop : stop.zone? = none) (early : stop.toDate.year < lastYear)
    (hx : x ∈ r.dates seed seed stop none) (later : seed.toDate.day < x.toDate.day) :
    x.localTime.leap = false := by
  obtain ⟨k, p, c, cx, hp, trace, -, -⟩ := exists_traced h hseed hstop early hx
  have leap : p.leap = false := by
    rcases (clock_of_daily daily hp).2 with ⟨-, first⟩ | ⟨-, leap⟩
    · have unit := trace.unit
      have date := (RuleParts.leads_clockStages trace.leads).1
      unfold unitIndex at unit
      rw [daily] at unit
      have day : c.date.day = p.date.day := unit
      rw [Temporal.toDate_of_withCivil hseed trace.value, date, day, first] at later
      exact absurd later (Int.lt_irrefl _)
    · exact leap
  rw [trace.leap hseed, leap, Bool.and_false]

/-! ## 4. Agreement -/

/-- What such a rule lists ascends strictly. -/
theorem pairwise_dates (h : r.ShowsAll) (hseed : seed.zone? = none) :
    (r.dates seed seed stop none).Pairwise fun a b =>
      (Comparator.forSeed seed).key a < (Comparator.forSeed seed).key b :=
  Series.pairwise_toList (Series.lastKept_of (r.within seed seed stop) fun _ _ => .inr hseed) h.count

/-- Two frequencies list the same keys. -/
theorem map_key_dates {f g : Frequency} (hf : (r.withFrequency f).ShowsAll)
    (hg : (r.withFrequency g).ShowsAll) (hseed : seed.zone? = none) (hstop : stop.zone? = none)
    (early : stop.toDate.year < lastYear) :
    ((r.withFrequency f).dates seed seed stop none).map (Comparator.forSeed seed).key =
      ((r.withFrequency g).dates seed seed stop none).map (Comparator.forSeed seed).key := by
  refine @eq_of_ascending _ id _ _ (List.pairwise_map.mpr (pairwise_dates hf hseed))
    (List.pairwise_map.mpr (pairwise_dates hg hseed)) fun key => ?_
  rw [List.mem_map, List.mem_map]
  constructor
  · rintro ⟨x, hx, rfl⟩
    exact exists_mem_dates hf hg hseed hstop early hx
  · rintro ⟨x, hx, rfl⟩
    exact exists_mem_dates hg hf hseed hstop early hx

/-- What one frequency lists the other lists, unless one of them leaves a leap second. -/
theorem mem_dates_of_mem {f g : Frequency} (hf : (r.withFrequency f).ShowsAll)
    (hg : (r.withFrequency g).ShowsAll) (hseed : seed.zone? = none) (hstop : stop.zone? = none)
    (early : stop.toDate.year < lastYear)
    (keeps : f ≠ .daily ∧ g ≠ .daily ∨ seed.localTime.leap = false)
    (hx : x ∈ (r.withFrequency f).dates seed seed stop none) :
    x ∈ (r.withFrequency g).dates seed seed stop none := by
  obtain ⟨y, hy, key⟩ := exists_mem_dates hf hg hseed hstop early hx
  obtain ⟨⟨_, _, -, kindX⟩, -⟩ := (mem_dates_iff hf hseed).mp hx
  obtain ⟨⟨_, _, -, kindY⟩, -⟩ := (mem_dates_iff hg hseed).mp hy
  have leapX := leap_of_mem_dates hf hseed hstop early (keeps.imp_left And.left) hx
  have leapY := leap_of_mem_dates hg hseed hstop early (keeps.imp_left And.right) hy
  have same : y = x := Temporal.eq_of_key_eq hseed (sameKind_of_mem_candidatesAt kindY)
    (sameKind_of_mem_candidatesAt kindX) key (leapY.trans leapX.symm)
  rwa [same] at hy

/-- Two frequencies list the same values, unless one of them leaves a leap second. -/
theorem dates_withFrequency_eq {f g : Frequency} (hf : (r.withFrequency f).ShowsAll)
    (hg : (r.withFrequency g).ShowsAll) (hseed : seed.zone? = none) (hstop : stop.zone? = none)
    (early : stop.toDate.year < lastYear)
    (keeps : f ≠ .daily ∧ g ≠ .daily ∨ seed.localTime.leap = false) :
    (r.withFrequency f).dates seed seed stop none =
      (r.withFrequency g).dates seed seed stop none :=
  eq_of_ascending (pairwise_dates hf hseed) (pairwise_dates hg hseed) fun _ =>
    ⟨mem_dates_of_mem hf hg hseed hstop early keeps,
      mem_dates_of_mem hg hf hseed hstop early (keeps.imp_left And.symm)⟩

/-- **Expanding and limiting agree.** With parts that name the days, without ordinals, positions, an
    interval, a skip policy, a number of occurrences and a guard, a yearly rule lists from its seed on
    what a daily rule lists; and so does a monthly rule, if the parts list neither weeks nor days of
    the year. Under the comparator of the seed the lists are the same place by place. They are the
    same values as well, unless the seed is a leap second: the daily rule alone leaves it. -/
theorem expanding_agrees_with_limiting (r : Rule) (hinterval : r.interval = 1)
    (hskip : r.skip = .leaveOut) (hpositions : r.parts.positions = [])
    (hcount : r.parts.count? = none) (hguard : r.settings.emptyLimit ≤ 0)
    (hplain : ∀ e ∈ r.parts.days, e.ordinal = 0)
    (hnamed : r.parts.days ≠ [] ∨ r.parts.yearDays ≠ [] ∨ r.parts.monthDays ≠ [])
    {seed stop : Temporal} (hseed : seed.zone? = none) (hstop : stop.zone? = none)
    (hyear : stop.toDate.year < lastYear) :
    let listed := fun f => (r.withFrequency f).dates seed seed stop none
    let keys := fun f => (listed f).map (Comparator.forSeed seed).key
    (keys .yearly = keys .daily ∧ (seed.localTime.leap = false → listed .yearly = listed .daily)) ∧
      (r.parts.weekNumbers = [] → r.parts.yearDays = [] → listed .monthly = listed .yearly) := by
  intro listed keys
  have showsAll : ∀ f, (r.withFrequency f).TakesDays → (r.withFrequency f).ShowsAll :=
    fun f takes => ⟨⟨takes, hskip, hplain, hnamed⟩, hinterval, hpositions, hcount, hguard⟩
  have daily := showsAll .daily (.inl rfl)
  have yearly := showsAll .yearly (.inr (.inl rfl))
  refine ⟨⟨map_key_dates yearly daily hseed hstop hyear, fun plain =>
    dates_withFrequency_eq yearly daily hseed hstop hyear (.inr plain)⟩, fun weeks yearDays => ?_⟩
  have monthly := showsAll .monthly (.inr (.inr ⟨rfl, weeks, yearDays⟩))
  exact dates_withFrequency_eq monthly yearly hseed hstop hyear (.inl ⟨by decide, by decide⟩)

/-- The last day of each year. -/
def lastOfYear : Rule where
  frequency := .yearly
  parts := { RuleParts.none with months := [12], monthDays := [31] }
  settings := { Settings.standard with emptyLimit := 0 }
  valid := by decide

/-- At the last second of three years, from 2016 on. -/
theorem lastOfYear_listed_alike :
    let seed : Temporal := .floating ⟨63650447999, false, by decide, by decide⟩
    let stop : Temporal := .floating ⟨63713519999, false, by decide, by decide⟩
    let listed := fun f => (lastOfYear.withFrequency f).dates seed seed stop none
    let keys := fun f => (listed f).map (Comparator.forSeed seed).key
    (lastOfYear.interval = 1 ∧ lastOfYear.skip = .leaveOut ∧ lastOfYear.parts.positions = [] ∧
        lastOfYear.parts.count? = none ∧ lastOfYear.settings.emptyLimit ≤ 0 ∧
        (∀ e ∈ lastOfYear.parts.days, e.ordinal = 0) ∧ lastOfYear.parts.monthDays ≠ [] ∧
        seed.zone? = none ∧ stop.zone? = none ∧ stop.toDate.year < lastYear ∧
        seed.localTime.leap = false ∧ lastOfYear.parts.weekNumbers = [] ∧
        lastOfYear.parts.yearDays = []) ∧
      (keys .yearly = keys .daily ∧ listed .yearly = listed .daily) ∧
        listed .monthly = listed .yearly := by
  intro seed stop listed keys
  have plain : ∀ e ∈ lastOfYear.parts.days, e.ordinal = 0 := fun e h => absurd h List.not_mem_nil
  have named : lastOfYear.parts.monthDays ≠ [] := by decide
  have year : stop.toDate.year < lastYear := by decide
  obtain ⟨⟨sameKeys, same⟩, monthly⟩ := expanding_agrees_with_limiting lastOfYear rfl rfl rfl rfl
    (Int.le_refl 0) plain (.inr (.inr named)) (show seed.zone? = none from rfl) rfl year
  exact ⟨⟨rfl, rfl, rfl, rfl, Int.le_refl 0, plain, named, rfl, rfl, year, rfl, rfl, rfl⟩,
    ⟨sameKeys, same rfl⟩, monthly rfl rfl⟩

/-- From the leap second that ended 2016 on, the yearly rule comes to a leap second at the end of 2017
    as well, and the daily rule to the second before it. -/
theorem lastOfYear_differs_after_leapSecond :
    let seed : Temporal := .floating ⟨63650447999, true, by decide, by decide⟩
    let stop : Temporal := .floating ⟨63713519999, false, by decide, by decide⟩
    (lastOfYear.interval = 1 ∧ lastOfYear.skip = .leaveOut ∧ lastOfYear.parts.positions = [] ∧
        lastOfYear.parts.count? = none ∧ lastOfYear.settings.emptyLimit ≤ 0 ∧
        (∀ e ∈ lastOfYear.parts.days, e.ordinal = 0) ∧ lastOfYear.parts.monthDays ≠ [] ∧
        seed.zone? = none ∧ stop.zone? = none ∧ seed.toDate.year = 2016 ∧
        stop.toDate.year = 2018) ∧
      (lastOfYear.withFrequency .yearly).dates seed seed stop none ≠
        (lastOfYear.withFrequency .daily).dates seed seed stop none := by
  intro seed stop
  have plain : ∀ e ∈ lastOfYear.parts.days, e.ordinal = 0 := fun e h => absurd h List.not_mem_nil
  have named : lastOfYear.parts.monthDays ≠ [] := by decide
  have early : stop.toDate.year < lastYear := by decide
  have showsAll : ∀ f, (lastOfYear.withFrequency f).TakesDays →
      (lastOfYear.withFrequency f).ShowsAll := fun f takes =>
    ⟨⟨takes, rfl, plain, .inr (.inr named)⟩, rfl, rfl, rfl, Int.le_refl 0⟩
  have yearly := showsAll .yearly (.inr (.inl rfl))
  have daily := showsAll .daily (.inl rfl)
  refine ⟨⟨rfl, rfl, rfl, rfl, Int.le_refl 0, plain, named, rfl, rfl, by decide, by decide⟩,
    fun same => ?_⟩
  -- the leap second one year on is a value of the yearly rule
  let next : Civil := ⟨63681983999, true, by decide, by decide⟩
  have start : (lastOfYear.withFrequency .yearly).incrementStart? seed.localTime 1 = some next := by
    decide
  have trace : (lastOfYear.withFrequency .yearly).Traced seed (.floating next) next next next :=
    ⟨rfl, rfl, by decide, rfl, rfl⟩
  obtain ⟨y, hy, key⟩ := trace.exists_mem yearly (by decide)
  have listed : y ∈ (lastOfYear.withFrequency .yearly).dates seed seed stop none := by
    refine (mem_dates_iff yearly rfl).mpr ⟨⟨1, next, start, hy⟩, ?_, ?_, fun last h => ?_⟩
    · rw [key]
      decide
    · rw [key]
      decide
    · cases h
  have leap := leap_of_mem_dates yearly rfl rfl early (.inl (by decide)) listed
  have own : y = .floating next :=
    Temporal.eq_of_key_eq (show seed.zone? = none from rfl) (sameKind_of_mem_candidatesAt hy)
      ⟨rfl, rfl⟩ key leap
  -- and the daily rule has none after the day of the seed
  rw [own, same] at listed
  have none := leap_of_mem_daily daily rfl rfl rfl early listed (by decide)
  cases none

end Rule

end Almanac
