import Almanac.Proofs.Calendar.Months
import Almanac.Proofs.Component.Occurrences
import Almanac.Proofs.Temporal.Reach

/-!
# Instances under way

An instance may have started before the window it reaches into, so the search for starts begins one
duration before the window. A duration of months and days is not the same back as forth: months come
first in both directions. This file fixes

* **the way that the search undoes**, days first and then months (`Nominal.daysFirst?`): what starts
  before the search gets no further than the start of the window on it
  (`Nominal.daysFirst_of_before_search`);
* that the two ways forth end six days apart at most (`Nominal.stamp_addTo?_le`), so that what reaches
  far enough into the window has not started before the search (`Nominal.search_le`);
* so **an instance under way is found** (`Component.instances_under_way`) when its duration has no days,
  when it reaches more than six days into the window, or when it reaches into it with its days first;
* and that other instances may be lost (`Component.lastDays_of_stay_lost`).
-/

namespace Almanac

/-! ## 1. Months of civil time -/

namespace Civil

variable {a b c d u w : Civil} {months : Int}

/-- A step of months keeps the time of day. -/
theorem stamp_of_addMonths? (h : c.addMonths? months = some d) :
    d.stamp - c.stamp = (d.date.day - c.date.day) * 86400 := by
  obtain ⟨date, -, rfl⟩ := Option.map_eq_some_iff.mp h
  rw [date_onDate, stamp_onDate, day_date]
  omega

/-- **A step of as many months is six days longer at most**, from wherever it starts. -/
theorem stamp_of_addMonths?_le (hd : c.addMonths? months = some d) (hb : a.addMonths? months = some b) :
    d.stamp - c.stamp ≤ b.stamp - a.stamp + 6 * 86400 := by
  have days := Date.day_of_addMonths?_le (date_of_addMonths? hd) (date_of_addMonths? hb)
  rw [stamp_of_addMonths? hd, stamp_of_addMonths? hb]
  omega

/-- What does not lie behind the end of a step back does not come further than its start, and what lies
    before that end does not come as far. -/
theorem stamp_le_of_addMonths?_back (hd : c.addMonths? months = some d)
    (back : w.addMonths? (-months) = some u) :
    (c.stamp ≤ u.stamp → d.stamp ≤ w.stamp) ∧ (c.stamp < u.stamp → d.stamp < w.stamp) := by
  obtain ⟨le, lt⟩ := Date.day_le_of_addMonths?_back (date_of_addMonths? hd) (date_of_addMonths? back)
  have forth := stamp_of_addMonths? hd
  have own := stamp_of_addMonths? back
  simp only [day_date] at forth own le lt
  omega

/-- What does not lie behind the end of a step back can take the step forward. -/
theorem addMonths?_isSome_of_back (forward : 0 ≤ months) (back : w.addMonths? (-months) = some u)
    (le : c.stamp ≤ u.stamp) : ∃ d, c.addMonths? months = some d := by
  have ends := Date.monthIndex_of_addMonths? (date_of_addMonths? back)
  have index : c.date.monthIndex ≤ u.date.monthIndex := Date.monthIndex_le_of_day_le (by
    rw [day_date, day_date]
    omega)
  have low := c.date.year_within.1
  have high := w.date.year_within.2
  rw [Date.year_eq_monthIndex_div] at low high
  obtain ⟨date, hdate⟩ := Option.isSome_iff_exists.mp (Date.addMonths?_isSome
    (show firstYear ≤ (c.date.monthIndex + months) / 12 by omega) (by omega))
  exact ⟨c.onDate date, by rw [addMonths?, hdate]; rfl⟩

end Civil

/-! ## 2. Days first -/

namespace Nominal

variable {n : Nominal} {c e v w z : Civil}

/-- The civil time that many days and then that many months on. -/
def daysFirst? (n : Nominal) (civil : Civil) : Option Civil := do
  let shifted ← civil.addDays? n.days.toInt
  shifted.addMonths? n.totalMonths

theorem totalMonths_nonneg (forward : n.isNegative = false) : 0 ≤ n.totalMonths := by
  obtain ⟨years, months, -⟩ := isNegative_eq_false_iff.mp forward
  unfold totalMonths
  omega

theorem totalMonths_negated (forward : n.isNegative = false) :
    n.negated.totalMonths = -n.totalMonths := by
  obtain ⟨years, months, -⟩ := isNegative_eq_false_iff.mp forward
  show (-n.years).toInt * 12 + (-n.months).toInt = -(n.years.toInt * 12 + n.months.toInt)
  rw [toInt_neg_part years, toInt_neg_part months]
  omega

/-- Without days the order does not matter. -/
theorem daysFirst?_of_no_days (none : n.days = 0) (c : Civil) : n.daysFirst? c = n.addTo? c := by
  have days : ∀ d : Civil, d.addDays? n.days.toInt = some d := fun d => by
    rw [none]
    exact d.addSeconds?_zero
  unfold daysFirst? addTo?
  rw [days]
  simp only [days]
  exact (Option.bind_fun_some _).symm

/-- **What starts before the search gets no further than the start of the window**, with its days
    first. A step of days back leaves a leap second, so it may end a second late; only then does it
    reach the start itself. -/
theorem daysFirst_of_before_search (forward : n.isNegative = false)
    (search : n.negated.addTo? w = some v) (early : c.stamp < v.stamp) :
    ∃ z, n.daysFirst? c = some z ∧ z.stamp ≤ w.stamp ∧ (n.days = 0 → z.stamp < w.stamp) := by
  have days := (isNegative_eq_false_iff.mp forward).2.2
  obtain ⟨u, back, backDays⟩ := Option.bind_eq_some_iff.mp search
  rw [totalMonths_negated forward] at back
  have backDays : u.addSeconds? ((-n.days).toInt * 86400) = some v := backDays
  rw [toInt_neg_part days] at backDays
  obtain ⟨y, hy, le, lt⟩ : ∃ y, c.addDays? n.days.toInt = some y ∧ y.stamp ≤ u.stamp ∧
      (n.days = 0 → y.stamp < u.stamp) := by
    by_cases none : n.days.toInt = 0
    · rw [none] at backDays ⊢
      cases u.addSeconds?_zero.symm.trans backDays
      exact ⟨c, c.addSeconds?_zero, Int.le_of_lt early, fun _ => early⟩
    · have later := Civil.stamp_of_addSeconds?_neg backDays (by omega)
      have room : c.stamp + n.days.toInt * 86400 ≤ u.stamp := by
        split at later <;> omega
      have last := u.le_last
      obtain ⟨y, hy⟩ := Option.isSome_iff_exists.mp (Civil.addSeconds?_isSome
        (show c.stamp + (n.days.toInt * 86400).toNat ≤ lastStamp by omega))
      rw [Int.toNat_of_nonneg (by omega)] at hy
      have stamp := Civil.stamp_of_addSeconds?_nonneg hy (by omega)
      exact ⟨y, hy, by omega, fun zero => absurd (by rw [zero]; rfl) none⟩
  obtain ⟨z, hz⟩ := Civil.addMonths?_isSome_of_back (totalMonths_nonneg forward) back le
  obtain ⟨le', lt'⟩ := Civil.stamp_le_of_addMonths?_back hz back
  exact ⟨z, Option.bind_eq_some_iff.mpr ⟨y, hy, hz⟩, le' le, fun zero => lt' (lt zero)⟩

/-- **Months first comes six days further at most** than days first. -/
theorem stamp_addTo?_le (forward : n.isNegative = false) (he : n.addTo? c = some e)
    (hz : n.daysFirst? c = some z) : e.stamp ≤ z.stamp + 6 * 86400 := by
  have days := (isNegative_eq_false_iff.mp forward).2.2
  obtain ⟨x, hx, he⟩ := Option.bind_eq_some_iff.mp he
  obtain ⟨y, hy, hz⟩ := Option.bind_eq_some_iff.mp hz
  have months := Civil.stamp_of_addMonths?_le hx hz
  have last := Civil.stamp_of_addSeconds?_nonneg he (by omega)
  have first := Civil.stamp_of_addSeconds?_nonneg hy (by omega)
  omega

/-- **What does not start before the search**: an instance that stops no earlier than the window starts
    and has no days, or that reaches more than six days into the window, or that reaches into it with
    its days first. -/
theorem search_le (forward : n.isNegative = false) (search : n.negated.addTo? w = some v)
    (he : n.addTo? c = some e) (late : n.days = 0 ∧ w.stamp ≤ e.stamp ∨
      w.stamp + 6 * 86400 < e.stamp ∨ ∃ z, n.daysFirst? c = some z ∧ w.stamp < z.stamp) :
    v.stamp ≤ c.stamp := by
  refine Int.not_lt.mp fun early => ?_
  obtain ⟨z, hz, le, lt⟩ := daysFirst_of_before_search forward search early
  rcases late with ⟨zero, reaches⟩ | far | ⟨z', hz', reaches⟩
  · rw [daysFirst?_of_no_days zero, he] at hz
    cases hz
    have := lt zero
    omega
  · have := stamp_addTo?_le forward he hz
    omega
  · cases hz.symm.trans hz'
    omega

end Nominal

/-! ## 3. Values without a zone -/

namespace Temporal

variable {seed t u : Temporal} {n : Nominal}

theorem isDateTime_of_sameKind (h : t.SameKind seed) : t.isDateTime = seed.isDateTime := by
  have rank : ∀ u : Temporal, u.isDateTime = decide (u.kindRank ≠ 0) := fun u => by
    cases u <;> rfl
  rw [rank t, rank seed, h.1]

/-- Without a zone a comparator of date-times goes by the seconds that values lie in. -/
theorem key_forSeed_of_timed (hs : seed.zone? = none) (timed : seed.isDateTime = true) (t : Temporal) :
    (Comparator.forSeed seed).key t = t.second := by
  rw [Comparator.forSeed_of_unzoned hs, if_pos timed]
  rfl

/-- Without a zone a nominal amount moves the civil time. -/
theorem addTo?_of_plus (hz : t.zone? = none) (timed : t.isDateTime = true)
    (h : t.plus (.nominal n) = .ok u) : u.SameKind t ∧ n.addTo? t.localTime = some u.localTime := by
  obtain ⟨c, hc, value⟩ := Option.bind_eq_some_iff.mp
    (show (n.addTo? t.localTime).bind (t.withCivil .shiftForward) = some u from plus_eq_ok_iff.mp h)
  refine ⟨sameKind_of_withCivil value, ?_⟩
  cases t with
  | date _ => cases timed
  | floating _ =>
    cases value
    exact hc
  | utc _ =>
    cases value
    exact hc
  | zoned _ => cases hz

theorem zone?_eq_none_iff : t.zone? = none ↔ t.kindRank ≠ 3 := by
  cases t <;> simp [zone?, kindRank]

/-- **What does not start before the search**, among values without a zone. -/
theorem search_le {s e v w : Temporal} (hs : s.zone? = none ∧ s.isDateTime = true)
    (hw : w.zone? = none ∧ w.isDateTime = true) (forward : n.isNegative = false)
    (search : w.minus (.nominal n) = .ok v) (he : s.plus (.nominal n) = .ok e)
    (late : n.days = 0 ∧ w.second ≤ e.second ∨ w.second + 6 * 86400 < e.second ∨
      ∃ z, n.daysFirst? s.localTime = some z ∧ w.second < z.stamp) : v.second ≤ s.second := by
  obtain ⟨searchKind, back⟩ := addTo?_of_plus hw.1 hw.2 search
  obtain ⟨stopKind, forth⟩ := addTo?_of_plus hs.1 hs.2 he
  rw [second_eq hw.1, second_eq (stopKind.2.trans hs.1)] at late
  rw [second_eq hs.1, second_eq (searchKind.2.trans hw.1)]
  exact Nominal.search_le forward back forth late

/-- What the order does not tell apart from a value without a zone has none either. -/
theorem zone?_of_compare (ht : t.zone? = none) (h : compare t u = .eq) : u.zone? = none := by
  rw [zone?_eq_none_iff] at ht ⊢
  rw [← (compare_eq_iff.mp h).2]
  exact ht

end Temporal

/-! ## 4. Instances -/

namespace Component

variable {c : Component} {window : Period} {set : PeriodList} {s searchStart : Temporal}

/-- **A start that is found has an instance**, when nothing is taken away. -/
theorem exists_mem_of_mem_starts (hkept : c.exceptions = [] ∧ c.exceptionRules = [])
    (hset : c.instances window = .ok set) (hsearch : window.start.minus c.duration = .ok searchStart)
    (unzoned : s.zone? = none) (found : s ∈ c.starts searchStart window c.rules) :
    ∃ p ∈ set.members, p.start = s := by
  obtain ⟨additions, _, instances, -, own, hregular, rfl⟩ := instances_eq_ok hset
  cases own.symm.trans hsearch
  have some' : c.rules ≠ [] := fun none => by
    rw [none] at found
    cases found
  rw [regular_of_rules some'] at hregular
  obtain ⟨p, hp, lasts⟩ := Results.exists_mem_of_mapM hregular found
  -- a member may stand for several periods that are the same, but these have the same start
  obtain ⟨q, hq, same⟩ := PeriodList.exists_same_mem_insertAll (l := .empty)
    (List.mem_append_right (additions.filterMap id) hp)
  rw [Period.compare_eq_then, Ordering.then_eq_eq, start_of_lasting lasts] at same
  have start : s = q.start := Temporal.eq_of_compare_of_unzoned unzoned
    (Temporal.zone?_of_compare unzoned same.1) same.1
  refine ⟨q, List.mem_filter.mpr ⟨hq, ?_⟩, start.symm⟩
  rw [hkept.1, hkept.2]
  rfl

/-- **Instances under way are found.** An entry starts at a floating time or an instant, its duration is
    a number of years, months and days, not negative, and nothing is taken away. Then an occurrence of a
    rule that counts is the start of an instance in a window when it is not later than the window, and
    what lies one duration later reaches into the window: by more than six days, or with the days added
    first, or at all if the duration has no days. -/
theorem instances_under_way (c : Component) (window : Period) {n : Nominal} {r : Rule}
    {set : PeriodList} {s e : Temporal}
    (hstart : c.start.isDateTime = true ∧ c.start.zone? = none)
    (hwindow : window.start.SameKind c.start)
    (hlength : c.length = some (.nominal n)) (forward : n.isNegative = false)
    (hkept : c.exceptions = [] ∧ c.exceptionRules = [])
    (hr : r ∈ c.rules ∧ r.parts.count?.isSome = true)
    (hset : c.instances window = .ok set)
    (hs : s ∈ (r.occurrences c.start).toList) (he : s.plus (.nominal n) = .ok e)
    (to' : (Comparator.forSeed c.start).after s window.stop = false)
    (late : n.days = 0 ∧ window.start.second ≤ e.second ∨
      window.start.second + 6 * 86400 < e.second ∨
      ∃ z, n.daysFirst? s.localTime = some z ∧ window.start.second < z.stamp) :
    ∃ p ∈ set.members, p.start = s := by
  obtain ⟨timed, unzoned⟩ := hstart
  have duration : c.duration = .nominal n := by
    unfold Component.duration
    rw [hlength]
  obtain ⟨-, searchStart, -, -, hsearch, -, -⟩ := instances_eq_ok hset
  have kind := (Series.proper_of_mem_toList _ hs).kind
  have hzone : s.zone? = none := kind.2.trans unzoned
  have from' : (Comparator.forSeed c.start).before s searchStart = false := by
    rw [Comparator.before_eq_false_iff, Temporal.key_forSeed_of_timed unzoned timed,
      Temporal.key_forSeed_of_timed unzoned timed]
    exact Temporal.search_le ⟨hzone, (Temporal.isDateTime_of_sameKind kind).trans timed⟩
      ⟨hwindow.2.trans unzoned, (Temporal.isDateTime_of_sameKind hwindow).trans timed⟩ forward
      (duration ▸ hsearch) he late
  exact exists_mem_of_mem_starts hkept hset hsearch hzone (List.mem_flatMap.mpr
    ⟨r, hr.1, (Rule.mem_dates_iff_of_seen (.inl hr.2)).mpr ⟨hs, from', to'⟩⟩)

/-- A month and twenty days from 15 January 2023 on, once. -/
def stay : Component :=
  { Component.once (.utc ⟨63840960000, false, by decide, by decide⟩) with
    length := some (.nominal ⟨0, 1, 20⟩)
    rules := [{ frequency := .daily, parts := { RuleParts.none with ending := some (.count 1) },
                settings := .standard, valid := by decide }] }

/-- It lasts until 7 March. -/
def stayStop : Temporal := .utc ⟨63845366400, false, by decide, by decide⟩

theorem stay_stops : stay.start.plus (.nominal ⟨0, 1, 20⟩) = .ok stayStop :=
  Temporal.plus_eq_ok_iff.mpr (by decide +kernel)

theorem stay_occurs : ∀ r ∈ stay.rules, stay.start ∈ (r.occurrences stay.start).toList := by
  decide +kernel

/-- 20 and 21 February, and 6 and 7 March. -/
def middleOfStay : Period :=
  .span (.utc ⟨63844070400, false, by decide, by decide⟩)
    (.utc ⟨63844243200, false, by decide, by decide⟩)
def lastDaysOfStay : Period :=
  .span (.utc ⟨63845280000, false, by decide, by decide⟩)
    (.utc ⟨63845452800, false, by decide, by decide⟩)

theorem stay_found_in_the_middle :
    ∃ r set s e, (stay.start.isDateTime = true ∧ stay.start.zone? = none ∧
        middleOfStay.start.SameKind stay.start ∧ stay.length = some (.nominal ⟨0, 1, 20⟩) ∧
        stay.exceptions = [] ∧ stay.exceptionRules = [] ∧ r ∈ stay.rules ∧
        r.parts.count?.isSome = true ∧ stay.instances middleOfStay = .ok set ∧
        s ∈ (r.occurrences stay.start).toList ∧ s.plus (.nominal ⟨0, 1, 20⟩) = .ok e ∧
        (Comparator.forSeed stay.start).after s middleOfStay.stop = false ∧
        middleOfStay.start.second + 6 * 86400 < e.second) ∧
      ∃ p ∈ set.members, p.start = s := by
  have told : (stay.instances middleOfStay).toOption.isSome = true := by decide +kernel
  obtain ⟨rule, rules⟩ : ∃ rule, stay.rules = [rule] := ⟨_, rfl⟩
  have mem : rule ∈ stay.rules := rules ▸ List.mem_singleton_self rule
  have counts : ∀ r ∈ stay.rules, r.parts.count?.isSome = true := by decide
  cases hset : stay.instances middleOfStay with
  | error fault =>
    rw [hset] at told
    cases told
  | ok set =>
    have late : middleOfStay.start.second + 6 * 86400 < stayStop.second := by decide
    have occurs := stay_occurs rule mem
    exact ⟨rule, set, stay.start, stayStop, ⟨rfl, rfl, ⟨rfl, rfl⟩, rfl, rfl, rfl, mem,
        counts rule mem, rfl, occurs, stay_stops, rfl, late⟩,
      instances_under_way stay middleOfStay ⟨rfl, rfl⟩ ⟨rfl, rfl⟩ rfl rfl ⟨rfl, rfl⟩
        ⟨mem, counts rule mem⟩ hset occurs stay_stops rfl (.inr (.inl late))⟩

/-- **The last days of the stay are lost**: one month and twenty days before 6 March is 17 January, and
    the stay has started by then. -/
theorem lastDays_of_stay_lost :
    ∃ r e set, stay.rules = [r] ∧ r.parts.count? = some 1 ∧
      stay.length = some (.nominal ⟨0, 1, 20⟩) ∧ stay.exceptions = [] ∧ stay.exceptionRules = [] ∧
      stay.start ∈ (r.occurrences stay.start).toList ∧
      (Comparator.forSeed stay.start).before stay.start lastDaysOfStay.stop = true ∧
      stay.start.plus stay.duration = .ok e ∧
      (Comparator.forSeed stay.start).after e lastDaysOfStay.start = true ∧
      stay.instances lastDaysOfStay = .ok set ∧ ∀ p ∈ set.members, p.start ≠ stay.start := by
  have told : (stay.instances lastDaysOfStay).toOption.map PeriodList.members = some [] := by
    decide +kernel
  cases hset : stay.instances lastDaysOfStay with
  | error fault =>
    rw [hset] at told
    cases told
  | ok set =>
    rw [hset] at told
    have none : set.members = [] := Option.some.inj told
    refine ⟨_, stayStop, set, rfl, rfl, rfl, rfl, rfl, stay_occurs _ List.mem_cons_self, by decide,
      stay_stops, by decide, rfl, fun p hp => ?_⟩
    rw [none] at hp
    cases hp

end Component

end Almanac
