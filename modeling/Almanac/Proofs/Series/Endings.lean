import Almanac.Proofs.Series.Course
import Almanac.Rule.Draft
import Mathlib.Data.List.TakeWhile

/-!
# What ends a series, and what a window shows of it

The course of a series knows neither what ends the series nor the window that it is seen through.
This file fixes

* **series with the same steps and candidates have the same course** (`Series.SameSteps.course`),
  and neither a window nor what ends the rule has a say about steps and candidates
  (`Rule.sameSteps_within`, `Rule.sameSteps_withEnding`);
* **with a number of occurrences, a window is a filter** (`Rule.dates_eq_filter_of_count`): the
  occurrences are counted from the seed, whatever the window;
* **what ends a rule cuts its occurrences off** (`Rule.ending_cuts_occurrences`): a number keeps so
  many of them, and a last value keeps them up to the first one that is beyond it.
-/

namespace Almanac

/-! ## 1. Endings -/

/-- A rule that ends with a number does not end with a value. -/
theorem RuleParts.last?_of_count {p : RuleParts} {n : Nat} (h : p.count? = some n) :
    p.last? = .none := by
  unfold count? at h
  unfold last?
  split at h
  · rename_i e
    rw [e]
  · cases h

/-- Kept as its instant, a last value is as late as before. -/
theorem Draft.beyond_keptLast (c : Comparator) (last : Temporal) :
    c.beyond (keptLast last) = c.beyond last := by
  cases last with
  | zoned z =>
    funext t
    unfold Comparator.beyond Comparator.after Comparator.key Comparator.dateOf
    rfl
  | date _ => rfl
  | floating _ => rfl
  | utc _ => rfl

theorem Draft.isDateTime_keptLast (last : Temporal) :
    (keptLast last).isDateTime = last.isDateTime := by
  cases last <;> rfl

namespace Series

variable {s s' : Series}

/-! ## 2. One course -/

/-- Series that meet the same candidates in the same increments, read alike. -/
structure SameSteps (s s' : Series) : Prop where
  seed : s'.seed = s.seed
  guard : s'.rule.settings.guard? = s.rule.settings.guard?
  starts : ∀ k, s'.rule.incrementStart? s'.origin k = s.rule.incrementStart? s.origin k
  readings : ∀ period, s'.reading? period = s.reading? period
  candidates : ∀ period, s'.candidates period = s.candidates period

theorem SameSteps.key (h : s.SameSteps s') : s'.key = s.key := by
  unfold Series.key comparator
  rw [h.seed]

theorem SameSteps.emptiesAfter (h : s.SameSteps s') (empties : Nat) (period : Civil) :
    s'.emptiesAfter empties period = s.emptiesAfter empties period := by
  unfold Series.emptiesAfter
  rw [h.candidates, h.readings]

theorem SameSteps.ahead (h : s.SameSteps s') (k empties : Nat) :
    s'.ahead k empties = s.ahead k empties := by
  fun_induction s.ahead k empties with
  | case1 k empties full => exact ahead_of_guard (h.guard ▸ full)
  | case2 k empties open' none => exact ahead_of_none ((h.starts k).trans none)
  | case3 k empties open' period some ih =>
    rw [ahead_of_some (by rw [h.guard]; exact eq_false_of_ne_true open') ((h.starts k).trans some),
      h.candidates, h.emptiesAfter, ih]

/-- **The course hangs on steps and candidates alone.** -/
theorem SameSteps.course (h : s.SameSteps s') (k : Nat) : s'.course k = s.course k := by
  unfold Series.course
  rw [h.key, h.seed, h.ahead]

/-! ## 3. A number of occurrences -/

/-- A walk that counts begins at the seed. -/
theorem increment_setOut_of_count {n : Nat} (h : s.rule.parts.count? = some n) :
    s.setOut.increment = 0 := by
  unfold setOut
  rw [h]
  cases s.start <;> rfl

/-- Without a last value nothing is beyond it. -/
theorem exceedsLast_of_none (h : s.rule.parts.last? = none) (t : Temporal) :
    s.exceedsLast t = false := by
  rw [exceedsLast_eq, h, Option.any_none]

theorem lastKept_of_none (h : s.rule.parts.last? = none) : s.LastKept :=
  s.lastKept_of fun last hl => by rw [h] at hl; cases hl

theorem takeWhile_of_last?_eq_none (h : s.rule.parts.last? = none) (values : List Temporal) :
    (values.takeWhile fun t => !s.exceedsLast t) = values :=
  List.takeWhile_eq_self_iff.mpr fun t _ => by rw [exceedsLast_of_none h t, Bool.not_false]

/-- **So many of the course, and of these the ones inside the window.** -/
theorem toList_of_count {n : Nat} (h : s.rule.parts.count? = some n) :
    s.toList = ((s.course 0).take n).filter s.inside := by
  have last := RuleParts.last?_of_count h
  rw [toList_eq (lastKept_of_none last), increment_setOut_of_count h, harvest_eq, h]
  exact congrArg (List.filter s.inside) (takeWhile_of_last?_eq_none last _)

end Series

namespace Rule

/-- A window has no say about steps and candidates. -/
theorem sameSteps_within (r : Rule) (seed start stop : Temporal) :
    (r.occurrences seed).SameSteps (r.within seed start stop) :=
  ⟨rfl, rfl, fun _ => rfl, fun _ => rfl, fun _ => rfl⟩

/-- Nothing is outside an open window. -/
theorem filter_inside_occurrences (r : Rule) (seed : Temporal) (values : List Temporal) :
    values.filter (r.occurrences seed).inside = values :=
  List.filter_eq_self.mpr fun _ _ => rfl

theorem occurrences_of_count {r : Rule} {n : Nat} (h : r.parts.count? = some n) (seed : Temporal) :
    (r.occurrences seed).toList = ((r.occurrences seed).course 0).take n := by
  rw [Series.toList_of_count h, filter_inside_occurrences]

/-- **With a number of occurrences, a window is a filter.** They are counted from the seed, and so
    there are no more of them in any window than without one. -/
theorem dates_eq_filter_of_count (r : Rule) {n : Nat} (h : r.parts.count? = some n)
    (seed start stop : Temporal) :
    r.dates seed start stop none = ((r.occurrences seed).toList.filter fun t =>
        !(Comparator.forSeed seed).before t start && !(Comparator.forSeed seed).after t stop) ∧
      (r.occurrences seed).toList.length ≤ n := by
  have all := occurrences_of_count h seed
  have seen : (r.within seed start stop).toList =
      (((r.occurrences seed).course 0).take n).filter (r.within seed start stop).inside := by
    rw [Series.toList_of_count h, (r.sameSteps_within seed start stop).course 0]
  constructor
  · rw [all]
    exact seen
  · rw [all]
    exact List.length_take_le n _

/-- Each month's 31st, or the last day that the month has, three times. -/
def threeMonthEnds : Rule where
  frequency := .monthly
  parts := { RuleParts.none with
    ending := some (.count 3), scale := some .gregorian, skip := some .backward, monthDays := [31] }
  settings := .standard
  valid := by decide

/-- Counted from 31 January 2024, seen from 1 March to noon of 30 April. -/
theorem dates_threeMonthEnds :
    let seed : Temporal := .date ⟨739281, by decide, by decide⟩
    let start : Temporal := .date ⟨739311, by decide, by decide⟩
    let stop : Temporal := .utc ⟨63881697600, false, by decide, by decide⟩
    threeMonthEnds.parts.count? = some 3 ∧
      threeMonthEnds.dates seed start stop none =
        ((threeMonthEnds.occurrences seed).toList.filter fun t =>
          !(Comparator.forSeed seed).before t start && !(Comparator.forSeed seed).after t stop) ∧
      (threeMonthEnds.occurrences seed).toList.length ≤ 3 :=
  ⟨rfl, dates_eq_filter_of_count threeMonthEnds rfl _ _ _⟩

/-! ## 4. A rule with another ending -/

/-- The rule with another ending. -/
def withEnding (r : Rule) (ending : Option RuleEnd)
    (valid : RuleParts.fault? { r.parts with ending := ending } = none) : Rule :=
  ⟨r.frequency, { r.parts with ending := ending }, r.settings, valid⟩

/-- What ends a rule has no say about steps and candidates. -/
theorem sameSteps_withEnding (r : Rule) {ending : Option RuleEnd}
    (valid : RuleParts.fault? { r.parts with ending := ending } = none) (seed : Temporal) :
    (r.occurrences seed).SameSteps ((r.withEnding ending valid).occurrences seed) :=
  ⟨rfl, rfl, fun _ => rfl, fun _ => rfl, fun _ => rfl⟩

/-- Of an ending, only a number can make a rule invalid. -/
theorem fault?_withEnding (r : Rule) {ending : Option RuleEnd}
    (h : RuleParts.outsideNat .count (.between 1 Numeral.unsignedMax)
      (RuleParts.count? { r.parts with ending := ending }).toList = none) :
    RuleParts.fault? { r.parts with ending := ending } = none := by
  have valid := r.valid
  unfold RuleParts.fault? RuleParts.checks at valid ⊢
  simp_all

/-- Without an ending the occurrences are the whole course. -/
theorem occurrences_of_none {r : Rule} (h : r.parts.ending = none) (seed : Temporal) :
    (r.occurrences seed).toList = (r.occurrences seed).course 0 := by
  have count : (r.occurrences seed).rule.parts.count? = none := by
    show r.parts.count? = none
    rw [RuleParts.count?, h]
  have last : (r.occurrences seed).rule.parts.last? = none := by
    show r.parts.last? = none
    rw [RuleParts.last?, h]
  rw [Series.toList_eq (Series.lastKept_of_none last), Series.harvest_eq, count,
    Series.takeWhile_of_last?_eq_none last]
  exact filter_inside_occurrences r seed _

/-- With a last value the occurrences are the course up to the first value beyond it. -/
theorem occurrences_of_last {r : Rule} {last seed : Temporal}
    (h : r.parts.ending = some (.last last))
    (kept : last.isDateTime = true ∨ seed.zone? = none) :
    (r.occurrences seed).toList = ((r.occurrences seed).course 0).takeWhile fun t =>
      !(Comparator.forSeed seed).beyond last t := by
  have count : (r.occurrences seed).rule.parts.count? = none := by
    show r.parts.count? = none
    rw [RuleParts.count?, h]
  have ends : (r.occurrences seed).rule.parts.last? = some last := by
    show r.parts.last? = some last
    rw [RuleParts.last?, h]
  have exceeds : (r.occurrences seed).exceedsLast = (Comparator.forSeed seed).beyond last := by
    funext t
    rw [Series.exceedsLast_eq, ends]
    rfl
  have lastKept : (r.occurrences seed).LastKept := Series.lastKept_of _ fun value hv => by
    rw [ends] at hv
    cases hv
    exact kept
  rw [Series.toList_eq lastKept, Series.harvest_eq, count, exceeds]
  exact filter_inside_occurrences r seed _

/-- **What ends a rule cuts its occurrences off.** A rule that does not end takes every number from
    one on, and then has so many of its occurrences, and every last value, and then has them up to
    the first one beyond it; under a zoned seed this holds of last values with a time of day. -/
theorem ending_cuts_occurrences (r : Rule) (h : r.parts.ending = none) (seed : Temporal) :
    (∀ n, 1 ≤ n → n ≤ Numeral.unsignedMax →
      ∃ r', ((Draft.ofRule r).assign (.count n)).build = .ok r' ∧
        (r'.occurrences seed).toList = (r.occurrences seed).toList.take n) ∧
    (∀ last : Temporal, last.isDateTime = true ∨ seed.zone? = none →
      ∃ r', ((Draft.ofRule r).assign (.last last)).build = .ok r' ∧
        (r'.occurrences seed).toList = (r.occurrences seed).toList.takeWhile fun t =>
          !(Comparator.forSeed seed).beyond last t) := by
  rw [occurrences_of_none h]
  constructor
  · intro n low high
    have valid : RuleParts.fault? { r.parts with ending := some (.count n) } = none :=
      fault?_withEnding r <| by
        simp [RuleParts.count?, RuleParts.outsideNat, RuleParts.outside, ValueRange.contains]
        omega
    refine ⟨r.withEnding _ valid, Draft.build_ofRule (r.withEnding _ valid), ?_⟩
    rw [occurrences_of_count rfl, (sameSteps_withEnding r valid seed).course 0]
  · intro last kept
    have valid : RuleParts.fault? { r.parts with ending := some (.last (Draft.keptLast last)) } =
        none := fault?_withEnding r rfl
    refine ⟨r.withEnding _ valid, Draft.build_ofRule (r.withEnding _ valid), ?_⟩
    rw [occurrences_of_last rfl (by rwa [Draft.isDateTime_keptLast]), Draft.beyond_keptLast,
      (sameSteps_withEnding r valid seed).course 0]

/-- Every second Friday. -/
def everyOtherFriday : Rule where
  frequency := .weekly
  parts := { RuleParts.none with interval := some 2, days := [.every .friday] }
  settings := .standard
  valid := by decide

/-- Every second Friday from 2 February 2024 on, five times or until noon of 1 March. -/
theorem endings_of_everyOtherFriday :
    let seed : Temporal := .floating ⟨63874083600, false, by decide, by decide⟩
    let last : Temporal := .utc ⟨63876513600, false, by decide, by decide⟩
    everyOtherFriday.parts.ending = none ∧ 1 ≤ 5 ∧ 5 ≤ Numeral.unsignedMax ∧
      last.isDateTime = true ∧
      (∃ r', ((Draft.ofRule everyOtherFriday).assign (.count 5)).build = .ok r' ∧
        (r'.occurrences seed).toList = (everyOtherFriday.occurrences seed).toList.take 5) ∧
      ∃ r', ((Draft.ofRule everyOtherFriday).assign (.last last)).build = .ok r' ∧
        (r'.occurrences seed).toList = (everyOtherFriday.occurrences seed).toList.takeWhile fun t =>
          !(Comparator.forSeed seed).beyond last t :=
  ⟨rfl, by decide, by decide, rfl,
    (ending_cuts_occurrences everyOtherFriday rfl _).1 5 (by decide) (by decide),
    (ending_cuts_occurrences everyOtherFriday rfl _).2 _ (.inl rfl)⟩

end Rule

end Almanac
