import Almanac.Proofs.Series.Window
import Almanac.Proofs.Zone.Readings

/-!
# Series in elapsed time

A rule of hours or less on a seed in a zone steps through elapsed time, and every step reads the
clocks of the zone and looks their time up again. This file fixes, for rules without a BY part and
without an end,

* that a step finds the instant it came from again when the look-up of the zone is exact
  (`Elapsing.candidates_of_shown`): of the two instants of a repeated hour it is the one with the offset
  of the step, and no step comes to an hour that is left out;
* that no step cuts a walk short, not even one that clocks cannot show (`Elapsing.emptiesAfter_zero`);
* so what a walk lists of a window is **one value for every so many units from the seed on**
  (`Elapsing.mem_toList_iff`, `Rule.dates_in_elapsed_time`), whatever the clocks do. A value is later
  than another when the calendar has its instant and its local time (`Zoned.later?`).
-/

namespace Almanac

/-! ## 1. Units of elapsed time -/

/-- Seconds in a unit that is shorter than a day and so as long wherever it lies. -/
def Frequency.seconds? : Frequency → Option Nat
  | secondly => some 1
  | minutely => some 60
  | hourly => some 3600
  | _ => none

theorem Frequency.isSubDaily_of_seconds? {f : Frequency} {unit : Nat} (h : f.seconds? = some unit) :
    f.isSubDaily = true := by
  cases f with
  | secondly => rfl
  | minutely => rfl
  | hourly => rfl
  | daily => cases h
  | weekly => cases h
  | monthly => cases h
  | yearly => cases h

theorem Frequency.advance?_of_seconds? {f : Frequency} {unit : Nat} (h : f.seconds? = some unit)
    (c : Civil) (units : Nat) : f.advance? c units = c.addSeconds? (units * unit : Nat) := by
  cases f with
  | secondly =>
    cases h
    rw [Nat.mul_one]
    rfl
  | minutely =>
    cases h
    rw [Nat.mul_comm]
    rfl
  | hourly =>
    cases h
    rw [Nat.mul_comm]
    rfl
  | daily => cases h
  | weekly => cases h
  | monthly => cases h
  | yearly => cases h

/-- **Increments that are so many seconds apart.** -/
theorem Rule.incrementStart?_of_seconds? {r : Rule} {unit : Nat}
    (h : r.frequency.seconds? = some unit) (origin : Civil) (n : Nat) :
    r.incrementStart? origin n = origin.addSeconds? (n * r.interval * unit : Nat) :=
  Frequency.advance?_of_seconds? h origin (n * r.interval)

/-! ## 2. Rules without a BY part -/

/-- Parts among which there is no BY part. -/
structure RuleParts.Plain (p : RuleParts) : Prop where
  months : p.months = []
  weekNumbers : p.weekNumbers = []
  yearDays : p.yearDays = []
  monthDays : p.monthDays = []
  days : p.days = []
  hours : p.hours = []
  minutes : p.minutes = []
  seconds : p.seconds = []
  positions : p.positions = []

/-- Without a BY part an increment of a day or less has one civil time, its own. -/
theorem Rule.civilCandidates_of_plain {r : Rule} (h : r.parts.Plain)
    (hf : r.frequency.rank ≤ Frequency.daily.rank) (root period : Civil) (dateOnly : Bool) :
    r.civilCandidates root period dateOnly = [period] := by
  have monthDays : r.monthDaysFor root = [] := by
    unfold monthDaysFor
    cases hr : r.frequency <;> simp [hr, Frequency.rank, h.monthDays] at hf ⊢
  have days : r.daysFor root = [] := by
    unfold daysFor
    cases hr : r.frequency <;> simp [hr, Frequency.rank, h.days] at hf ⊢
  have stages : r.stages root dateOnly = [] := by
    simp [Rule.stages, stageOf, h.months, h.weekNumbers, h.yearDays, monthDays, days, h.hours,
      h.minutes, h.seconds]
  unfold civilCandidates byPosition
  rw [stages, h.positions]
  rfl

/-! ## 3. Later values in a zone -/

/-- The value of the same zone so many seconds later, if the calendar has its instant and what clocks show
    there. -/
def Zoned.later? (z : Zoned) (seconds : Nat) : Option Zoned :=
  (z.instant.addSeconds? seconds).bind fun i => (z.zone.shown? i).map fun _ => ⟨i, z.zone⟩

theorem Zoned.later?_eq_some_iff {z y : Zoned} {seconds : Nat} : z.later? seconds = some y ↔
    z.instant.addSeconds? seconds = some y.instant ∧ (z.zone.shown? y.instant).isSome ∧
      y.zone = z.zone := by
  unfold later?
  simp only [Option.bind_eq_some_iff, Option.map_eq_some_iff, Option.isSome_iff_exists]
  constructor
  · rintro ⟨i, hi, c, hc, rfl⟩
    exact ⟨hi, ⟨c, hc⟩, rfl⟩
  · rintro ⟨hi, ⟨c, hc⟩, zone⟩
    exact ⟨y.instant, hi, c, hc, by rw [← zone]⟩

namespace Series

/-- A series of a rule without a BY part and without an end that steps through elapsed time, in a
    zone whose look-up is exact. -/
structure Elapsing (s : Series) (z : Zoned) : Prop where
  seed : s.seed = .zoned z
  subDaily : s.rule.frequency.isSubDaily = true
  plain : s.rule.parts.Plain
  unending : s.rule.parts.ending = none
  exact : z.zone.Exact

namespace Elapsing

variable {s : Series} {z : Zoned} {i c : Civil} {x : Temporal}

/-! ## 4. Steps -/

theorem stepZone?_eq (h : s.Elapsing z) : s.stepZone? = some z.zone := by
  unfold stepZone?
  rw [if_pos h.subDaily, h.seed]
  rfl

theorem frame_eq (h : s.Elapsing z) (t : Temporal) : s.frame t = t.instantIn z.zone := by
  unfold frame
  rw [h.stepZone?_eq]

theorem origin_eq (h : s.Elapsing z) : s.origin = z.instant := by
  unfold origin
  rw [h.frame_eq, h.seed]
  rfl

theorem key_eq (h : s.Elapsing z) (t : Temporal) : s.key t = (t.instantIn z.zone).stamp := by
  unfold key comparator
  rw [h.seed]
  rfl

theorem count_eq (h : s.Elapsing z) : s.rule.parts.count? = none := by
  unfold RuleParts.count?
  rw [h.unending]

theorem last_eq (h : s.Elapsing z) : s.rule.parts.last? = none := by
  unfold RuleParts.last?
  rw [h.unending]

theorem lastKept (h : s.Elapsing z) : s.LastKept := s.lastKept_of fun last hl => by
  rw [h.last_eq] at hl
  cases hl

/-- **The instant that a step came from is found again.** Of two instants with one local time the
    later one is taken when it has the offset of the step, and otherwise the earlier one. -/
theorem valueAt?_eq (h : s.Elapsing z) (shows : z.zone.shown? i = some c) :
    s.rule.valueAt? s.seed (some (z.zone.offsetAt i)) c = some (.zoned ⟨i, z.zone⟩) := by
  have mem := (h.exact.mem_readings_iff _ i).mpr shows
  have two := h.exact.at_most_two c
  have same : ∀ j ∈ z.zone.readings c, z.zone.offsetAt j = z.zone.offsetAt i → j = i :=
    fun j hj offset => by
      obtain ⟨stamp, leap⟩ := Zone.shown?_eq_some_iff.mp ((h.exact.mem_readings_iff _ j).mp hj)
      obtain ⟨stamp', leap'⟩ := Zone.shown?_eq_some_iff.mp shows
      exact Civil.ext (by omega) (leap.symm.trans leap')
  rw [h.seed]
  cases found : z.zone.readings c with
  | nil =>
    rw [found] at mem
    cases mem
  | cons earlier more =>
    rw [found] at mem two same
    cases more with
    | nil =>
      cases List.mem_singleton.mp mem
      have first : z.zone.earliest? c = some i := by
        unfold Zone.earliest?
        rw [found]
        rfl
      simp only [Rule.valueAt?, found]
      show (s.rule.settings.gapPolicy.resolve z.zone _).map _ = _
      rw [Zone.resolve_of_earliest? _ first]
      rfl
    | cons later rest =>
      have none : rest = [] := List.eq_nil_of_length_eq_zero (by simpa using two)
      subst none
      simp only [Rule.valueAt?, found]
      by_cases offset : z.zone.offsetAt later = z.zone.offsetAt i
      · rw [if_pos offset, same later (by simp) offset]
      · have differ : i ≠ later := fun e => offset (congrArg z.zone.offsetAt e.symm)
        have first : i = earlier := by
          rcases List.mem_cons.mp mem with first | second
          · exact first
          · exact absurd (List.mem_singleton.mp second) differ
        rw [if_neg offset, first]

theorem reading?_eq (h : s.Elapsing z) (i : Civil) : s.reading? i = z.zone.shown? i := by
  unfold reading?
  rw [h.stepZone?_eq]

/-- **A step has one candidate, the instant that it came from**, -/
theorem candidates_of_shown (h : s.Elapsing z) (shows : z.zone.shown? i = some c) :
    s.candidates i = [.zoned ⟨i, z.zone⟩] := by
  unfold candidates
  rw [h.reading?_eq, shows, h.stepZone?_eq]
  show ascending _ ((s.rule.civilCandidates _ _ _).filterMap _) = _
  rw [Rule.civilCandidates_of_plain h.plain (Nat.le_of_lt (of_decide_eq_true h.subDaily)),
    List.filterMap_cons, Option.map_some, h.valueAt?_eq shows]
  simp [ascending, thin]

/-- and none if clocks cannot show it. -/
theorem candidates_of_not_shown (h : s.Elapsing z) (none : z.zone.shown? i = none) :
    s.candidates i = [] := by
  unfold candidates
  rw [h.reading?_eq, none]

theorem mem_candidates_iff (h : s.Elapsing z) :
    x ∈ s.candidates i ↔ (z.zone.shown? i).isSome ∧ x = .zoned ⟨i, z.zone⟩ := by
  cases shows : z.zone.shown? i with
  | none => simp [h.candidates_of_not_shown shows]
  | some c => simp [h.candidates_of_shown shows]

/-- Either way it is no empty increment. -/
theorem emptiesAfter_zero (h : s.Elapsing z) (i : Civil) : s.emptiesAfter 0 i = 0 := by
  unfold emptiesAfter
  rw [h.reading?_eq]
  cases shows : z.zone.shown? i with
  | none => rw [h.candidates_of_not_shown shows]; rfl
  | some c => rw [h.candidates_of_shown shows]; rfl

/-! ## 5. Walks -/

/-- **What rises ahead of a walk**: what every step has, for each of them is later than all before. -/
theorem mem_climb_ahead_iff (h : s.Elapsing z) {k : Nat} {mark : Int}
    (below : ∀ i, s.rule.incrementStart? z.instant k = some i → mark < i.stamp) :
    x ∈ climb s.key mark (s.ahead k 0) ↔
      ∃ n i, k ≤ n ∧ s.rule.incrementStart? z.instant n = some i ∧ x ∈ s.candidates i := by
  cases hp : s.rule.incrementStart? z.instant k with
  | none =>
    rw [ahead_of_none (by rw [h.origin_eq]; exact hp)]
    refine ⟨fun mem => absurd mem List.not_mem_nil, ?_⟩
    rintro ⟨n, i, le, hi, -⟩
    cases (Rule.incrementStart?_eq_none_of_le le hp).symm.trans hi
  | some period =>
    have nearer := Rule.incrementStart?_lt_horizon hp
    have later : ∀ i, s.rule.incrementStart? z.instant (k + 1) = some i → period.stamp < i.stamp :=
      fun i hi => Rule.stamp_lt_of_lt k.lt_succ_self hp hi
    have here : (∃ n i, k ≤ n ∧ s.rule.incrementStart? z.instant n = some i ∧ x ∈ s.candidates i) ↔
        x ∈ s.candidates period ∨
          ∃ n i, k + 1 ≤ n ∧ s.rule.incrementStart? z.instant n = some i ∧ x ∈ s.candidates i := by
      constructor
      · rintro ⟨n, i, le, hi, mem⟩
        rcases Nat.lt_or_eq_of_le le with lt | rfl
        · exact .inr ⟨n, i, lt, hi, mem⟩
        · cases hp.symm.trans hi
          exact .inl mem
      · rintro (mem | ⟨n, i, le, hi, mem⟩)
        · exact ⟨k, period, Nat.le_refl k, hp, mem⟩
        · exact ⟨n, i, Nat.le_of_succ_le le, hi, mem⟩
    rw [ahead_of_some s.rule.settings.guard?_zero (by rw [h.origin_eq]; exact hp),
      h.emptiesAfter_zero, here]
    cases shows : z.zone.shown? period with
    | none =>
      rw [h.candidates_of_not_shown shows, List.nil_append, mem_climb_ahead_iff h fun i hi =>
        Int.lt_trans (below period hp) (later i hi)]
      simp
    | some c =>
      have key : s.key (.zoned ⟨period, z.zone⟩) = period.stamp := h.key_eq _
      rw [h.candidates_of_shown shows, List.singleton_append,
        climb_cons_of_lt _ (by rw [key]; exact below period hp), List.mem_cons,
        mem_climb_ahead_iff h fun i hi => by rw [key]; exact later i hi, List.mem_singleton]
termination_by horizon - k

/-- What a walk passes when it sets out is before all that is inside the window. -/
theorem stamp_lt_of_passed (h : s.Elapsing z) (inside : s.inside x = true) {m : Nat}
    (passed : m < s.setOut.increment) (hi : s.rule.incrementStart? z.instant m = some i) :
    i.stamp < s.key x := by
  cases start : s.start with
  | none =>
    rw [increment_setOut_of_open start] at passed
    cases passed
  | some value =>
    obtain ⟨first, hfirst, reach⟩ := exists_first_of_passed h.count_eq start passed
    rw [h.origin_eq] at hfirst
    rw [h.frame_eq, ← h.key_eq] at reach
    have lt := Rule.stamp_lt_of_lt passed hi hfirst
    have from' := Comparator.before_eq_false_iff.mp ((inside_iff.mp inside).1 value start)
    unfold key at *
    omega

/-- **What is listed**: what every step has, inside the window. -/
theorem mem_toList_iff (h : s.Elapsing z) : x ∈ s.toList ↔
    (∃ n i, s.rule.incrementStart? z.instant n = some i ∧ x ∈ s.candidates i) ∧
      s.inside x = true := by
  have endless : s.exceedsLast x = false := exceedsLast_eq_false_iff.mpr fun last hl => by
    rw [h.last_eq] at hl
    cases hl
  have below : ∀ i, s.rule.incrementStart? z.instant s.setOut.increment = some i →
      s.key s.seed - 1 < i.stamp := fun i hi => by
    have := Rule.origin_le hi
    rw [h.seed, h.key_eq]
    show z.instant.stamp - 1 < i.stamp
    omega
  rw [Series.mem_toList_iff h.lastKept h.count_eq]
  constructor
  · rintro ⟨mem, -, inside⟩
    obtain ⟨n, i, -, hi, mem⟩ := (h.mem_climb_ahead_iff below).mp mem
    exact ⟨⟨n, i, hi, mem⟩, inside⟩
  · rintro ⟨⟨n, i, hi, mem⟩, inside⟩
    have passed : s.setOut.increment ≤ n := Nat.le_of_not_lt fun passed => by
      have before := h.stamp_lt_of_passed inside passed hi
      obtain ⟨-, rfl⟩ := h.mem_candidates_iff.mp mem
      rw [h.key_eq] at before
      exact absurd before (Int.lt_irrefl _)
    exact ⟨(h.mem_climb_ahead_iff below).mpr ⟨n, i, passed, hi, mem⟩, endless, inside⟩

end Elapsing

end Series

/-! ## 6. What is listed -/

namespace Rule

/-- **A rule of hours or less steps through elapsed time in its zone.** Without a BY part and without
    an end it lists of a window, in order, just the values that lie whole intervals of seconds,
    minutes or hours after the seed, each in the zone of the seed. Of a local time the instants are
    listed at which clocks show it: so both of a repeated hour, if they are steps, and none for an hour
    that is left out. Clocks that are within a day of universal time show every instant but those of the
    last day of the calendar, so up to there no instant is left out. -/
theorem dates_in_elapsed_time (r : Rule) (z : Zoned) (start stop : Temporal) {unit : Nat}
    (hunit : r.frequency.seconds? = some unit) (hplain : r.parts.Plain)
    (hend : r.parts.ending = none) (hzone : z.zone.Exact) :
    ((r.dates (.zoned z) start stop none).Pairwise fun a b =>
        (Comparator.forSeed (.zoned z)).before a b = true) ∧
      (∀ x, x ∈ r.dates (.zoned z) start stop none ↔
        (∃ n y, z.later? (n * r.interval * unit) = some y ∧ x = .zoned y) ∧
          (Comparator.forSeed (.zoned z)).before x start = false ∧
          (Comparator.forSeed (.zoned z)).after x stop = false) ∧
      (∀ y, .zoned y ∈ r.dates (.zoned z) start stop none → ∀ c,
        (y.localTime = c ↔ y.instant ∈ z.zone.readings c)) ∧
      (z.zone.WithinDay → firstStamp + 86400 ≤ z.instant.stamp → ∀ n i,
        z.instant.addSeconds? (n * r.interval * unit : Nat) = some i →
          i.stamp + 86400 ≤ lastStamp → z.later? (n * r.interval * unit) = some ⟨i, z.zone⟩) := by
  have elapsing : (r.within (.zoned z) start stop).Elapsing z :=
    ⟨rfl, Frequency.isSubDaily_of_seconds? hunit, hplain, hend, hzone⟩
  have steps : ∀ x, (∃ n i, r.incrementStart? z.instant n = some i ∧
      x ∈ (r.within (.zoned z) start stop).candidates i) ↔
      ∃ n y, z.later? (n * r.interval * unit) = some y ∧ x = .zoned y := fun x => by
    simp only [incrementStart?_of_seconds? hunit, elapsing.mem_candidates_iff,
      Zoned.later?_eq_some_iff]
    constructor
    · rintro ⟨n, i, hi, shows, rfl⟩
      exact ⟨n, ⟨i, z.zone⟩, ⟨hi, shows, rfl⟩, rfl⟩
    · rintro ⟨n, ⟨i, zone⟩, ⟨hi, shows, rfl⟩, rfl⟩
      exact ⟨n, i, hi, shows, rfl⟩
  have listed : ∀ x, x ∈ r.dates (.zoned z) start stop none ↔
      (∃ n y, z.later? (n * r.interval * unit) = some y ∧ x = .zoned y) ∧
        (r.within (.zoned z) start stop).inside x = true := fun x =>
    elapsing.mem_toList_iff.trans (and_congr_left' (steps x))
  refine ⟨(Series.pairwise_toList elapsing.lastKept elapsing.count_eq).imp Comparator.before_iff.mpr,
    fun x => (listed x).trans (and_congr_right' ?_), fun y mem c => ?_,
    fun near low n i hi high => ?_⟩
  · rw [Series.inside_iff]
    simp [Rule.within, Series.comparator]
  · obtain ⟨⟨n, _, later, e⟩, -⟩ := (listed _).mp mem
    cases e
    obtain ⟨-, shows, zone⟩ := Zoned.later?_eq_some_iff.mp later
    obtain ⟨shown, hshown⟩ := Option.isSome_iff_exists.mp shows
    have reads : y.localTime = shown := by
      unfold Zoned.localTime
      rw [zone]
      exact Zone.localTime_of_shown? hshown
    rw [hzone.mem_readings_iff, hshown, reads, Option.some.injEq]
  · have first := Rule.origin_le ((incrementStart?_of_seconds? hunit z.instant n).trans hi)
    have shows : (z.zone.shown? i).isSome := near.shown?_isSome (by omega) high
    exact Zoned.later?_eq_some_iff.mpr ⟨hi, shows, rfl⟩

/-- Every hour. -/
def everyHour : Rule := ⟨.hourly, .none, .standard, RuleParts.fault?_none⟩

/-- Midnight of 1 November 2024 in New York, two days before clocks are put back there. -/
def beforeFallBack : Zoned := ⟨⟨63897652800, false, by decide, by decide⟩, ZoneTable.newYork⟩

/-- From five to eight in the morning of 3 November 2024, in universal time. -/
def fallBack : Temporal × Temporal :=
  (.utc ⟨63897829200, false, by decide, by decide⟩, .utc ⟨63897840000, false, by decide, by decide⟩)

/-- Between one and two the clocks go round twice. -/
example : (everyHour.dates (.zoned beforeFallBack) fallBack.1 fallBack.2 none).map
    (fun t => t.localTime.hour) = [1, 1, 2, 3] := by decide +kernel

theorem dates_of_fallBack :
    (everyHour.frequency.seconds? = some 3600 ∧ everyHour.parts.Plain ∧
        everyHour.parts.ending = none ∧ beforeFallBack.zone.Exact ∧
        beforeFallBack.zone.WithinDay) ∧
      (∀ x, x ∈ everyHour.dates (.zoned beforeFallBack) fallBack.1 fallBack.2 none ↔
        (∃ n y, beforeFallBack.later? (n * everyHour.interval * 3600) = some y ∧ x = .zoned y) ∧
          (Comparator.forSeed (.zoned beforeFallBack)).before x fallBack.1 = false ∧
          (Comparator.forSeed (.zoned beforeFallBack)).after x fallBack.2 = false) ∧
      beforeFallBack.later? (49 * everyHour.interval * 3600) =
        some ⟨⟨63897829200, false, by decide, by decide⟩, ZoneTable.newYork⟩ := by
  have plain : everyHour.parts.Plain := ⟨rfl, rfl, rfl, rfl, rfl, rfl, rfl, rfl, rfl⟩
  have exact' : beforeFallBack.zone.Exact :=
    (Zone.spaced_of_mem_zones ZoneTable.newYork (by simp [ZoneTable.zones])).exact
  have near : beforeFallBack.zone.WithinDay :=
    Zone.withinDay_of_mem_zones ZoneTable.newYork (by simp [ZoneTable.zones])
  obtain ⟨-, listed, -, reached⟩ := dates_in_elapsed_time everyHour beforeFallBack fallBack.1
    fallBack.2 rfl plain rfl exact'
  exact ⟨⟨rfl, plain, rfl, exact', near⟩, listed,
    reached near (by decide) 49 _ (by decide) (by decide)⟩

end Rule

end Almanac
