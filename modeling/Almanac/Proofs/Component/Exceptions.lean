import Almanac.Proofs.Component.Occurrences
import Almanac.Proofs.Temporal.Reach

/-!
# Exceptions of an entry

Exceptions take instances away by their start. Those that are given by a date or a time are held against
every instance; an exception rule is asked for its dates from one duration before the window on, as
the rules are. This file fixes

* **no instance starts at an exception that is given, nor at a date that an exception rule lists**
  (`Component.not_excluded_of_mem_instances`);
* where instances start (`Component.start_of_mem_instances`): what rules list starts where exception
  rules are looked up, and where one clock can tell the entry and the window (`Component.OnClock`)
  so does all but the added periods (`Component.searched_of_mem_instances`). An occurrence that takes
  one of them away is looked up as well (`Component.searched_of_excludes`);
* so **no instance starts at an occurrence of an exception rule, unless it is an added period**
  (`Component.instances_keep_off_exceptions`). An added period brings a length of its own, and may
  begin before the search does; then it stays (`Component.early_period_kept`).
-/

namespace Almanac.Component

variable {c : Component} {window p : Period} {set : PeriodList} {s t searchStart : Temporal}

/-! ## 1. What is taken away -/

/-- **No instance starts at an exception**, given or listed by a rule. -/
theorem not_excluded_of_mem_instances (h : c.instances window = .ok set) (hp : p ∈ set.members)
    (hsearch : window.start.minus c.duration = .ok searchStart) :
    ∀ e ∈ c.exceptions ++ c.starts searchStart window c.exceptionRules,
      excludes e p.start = false := by
  obtain ⟨additions, searchStart', regular, -, hsearch', -, rfl⟩ := instances_eq_ok h
  cases hsearch.symm.trans hsearch'
  have kept := (List.mem_filter.mp hp).2
  intro e he
  refine Bool.not_eq_true _ ▸ fun taken => ?_
  rw [List.any_eq_true.mpr ⟨e, he, taken⟩] at kept
  cases kept

/-- A value that is no date takes away what coincides with it. -/
theorem excludes_of_isDateTime (h : t.isDateTime = true) (s : Temporal) :
    excludes t s = (Comparator.forSeed s).equal t s := by
  cases t with
  | date d => cases h
  | floating _ => rfl
  | utc _ => rfl
  | zoned _ => rfl

/-! ## 2. Where instances start -/

/-- The times at which the starts of instances are looked up. -/
def Searched (c : Component) (window : Period) (searchStart s : Temporal) : Prop :=
  (Comparator.forSeed c.start).before s searchStart = false ∧
    (Comparator.forSeed c.start).after s window.stop = false

/-- **Where an instance starts**, if it has not been added as it is. -/
theorem start_of_mem_instances (h : c.instances window = .ok set) (hp : p ∈ set.members)
    (hsearch : window.start.minus c.duration = .ok searchStart) :
    .period p ∈ c.additions ∨
    (.instant p.start ∈ c.additions ∧ window.includes p.start = true) ∨
    (c.first = .ok p ∧ window.intersects p = true) ∨
    ∃ r ∈ c.rules, p.start ∈ r.dates c.start searchStart window.stop none := by
  rcases added_or_regular_of_mem_instances h hp with
    ⟨addition, mem, brings⟩ | ⟨searchStart', regular, hsearch', hregular, mem⟩
  · rcases added_eq_some brings with ⟨rfl, -⟩ | ⟨rfl, inside, -⟩
    · exact .inl mem
    · exact .inr (.inl ⟨mem, inside⟩)
  · cases hsearch.symm.trans hsearch'
    rcases due_of_mem_regular hregular mem with due | ⟨listed, -⟩
    · exact .inr (.inr (.inl due))
    · exact .inr (.inr (.inr listed))

/-- What a rule lists is looked up where it is listed, and of the entry's kind. -/
theorem searched_of_mem_dates {r : Rule} (h : t ∈ r.dates c.start searchStart window.stop none) :
    t.SameKind c.start ∧ c.Searched window searchStart t := by
  have proper := (r.within c.start searchStart window.stop).proper_of_mem_toList h
  have inside := (Series.inside_iff).mp proper.inside
  exact ⟨proper.kind, by simpa [Rule.within, Series.comparator, Searched] using inside⟩

/-- What an occurrence excludes is looked up where the occurrence is, if it is of the entry's kind. -/
theorem searched_of_sameKind (ht : t.SameKind c.start) (hs : s.SameKind c.start)
    (searched : c.Searched window searchStart s) (taken : excludes t s = true) :
    c.Searched window searchStart t := by
  cases entry : c.start.isDateTime with
  | false =>
    obtain ⟨day, rfl⟩ := Temporal.exists_date ((Temporal.isDateTime_of_kindRank ht.1).trans entry)
    obtain ⟨own, rfl⟩ := Temporal.exists_date ((Temporal.isDateTime_of_kindRank hs.1).trans entry)
    have same : (Civil.midnight own).date = day := of_decide_eq_true taken
    rw [Civil.date_midnight] at same
    rwa [← same]
  | true =>
    have alike : Comparator.forSeed s = Comparator.forSeed c.start := by
      unfold Comparator.forSeed Temporal.zoneOrUtc
      rw [hs.2, Temporal.isDateTime_of_kindRank hs.1]
    rw [excludes_of_isDateTime ((Temporal.isDateTime_of_kindRank ht.1).trans entry), alike] at taken
    have same : (Comparator.forSeed c.start).key t = (Comparator.forSeed c.start).key s :=
      of_decide_eq_true taken
    unfold Searched Comparator.before Comparator.after at searched ⊢
    rwa [same]

/-! ## 3. Entries on one clock -/

/-- An entry and a window that one clock can tell, the window not starting in a leap second. In an entry
    with a time of day the window, and the starts that are added, have one too. The duration is
    as long wherever it starts. -/
structure OnClock (c : Component) (zoned : Bool) (window : Period) : Prop where
  start : c.start.Told zoned
  stop : ∀ t ∈ c.stop, t.Told zoned
  added : ∀ t, .instant t ∈ c.additions →
    t.Told zoned ∧ (c.start.isDateTime = true → t.isDateTime = true)
  windowStart : window.start.Told zoned
  windowStop : window.stop.Told zoned
  timed : c.start.isDateTime = true → window.start.isDateTime = true
  plain : (window.start.instantIn Zone.utc).leap = false
  forward : c.duration.isNegative = false
  steady : c.duration.IsSteady zoned

variable {zoned : Bool}

/-- A search that starts one duration before the window. -/
theorem second_searchStart (hz : c.OnClock zoned window)
    (hsearch : window.start.minus c.duration = .ok searchStart) :
    searchStart.Told zoned ∧
      searchStart.second = window.start.second - window.start.reach c.duration := by
  obtain ⟨told, moved⟩ := hz.windowStart.second_of_plus? (Amount.isSteady_negated hz.steady)
    (.inl hz.plain) (Temporal.plus_eq_ok_iff.mp hsearch)
  rw [Temporal.reach_negated hz.forward] at moved
  exact ⟨told, moved⟩

/-- What lies between the bounds of the search is looked up. -/
theorem searched_of_second (hz : c.OnClock zoned window) (hsearch : searchStart.Told zoned)
    (hs : s.Told zoned) (from' : searchStart.second ≤ s.second)
    (to' : s.second ≤ window.stop.second) : c.Searched window searchStart s :=
  ⟨Comparator.before_eq_false_iff.mpr (hz.start.key_forSeed_le hsearch hs from'),
    Comparator.after_eq_false_iff.mpr (hz.start.key_forSeed_le hs hz.windowStop to')⟩

/-- **The entry's own first period** is not longer than the duration, but for a leap second that it
    starts in. -/
theorem seconds_first (hz : c.OnClock zoned window) (h : c.first = .ok p) :
    p.start = c.start ∧ p.stop.Told zoned ∧ p.start.second ≤ p.stop.second ∧
      p.stop.second ≤ p.start.second + c.duration.fixedSeconds +
        if (p.start.instantIn Zone.utc).leap = true then 1 else 0 := by
  have lasting (h : Period.lasting c.start c.duration = .ok p) : p.start = c.start ∧
      p.stop.Told zoned ∧ p.start.second ≤ p.stop.second ∧
      p.stop.second ≤ p.start.second + c.duration.fixedSeconds +
        if (p.start.instantIn Zone.utc).leap = true then 1 else 0 := by
    obtain ⟨forward, stop, hstop, rfl⟩ := Period.lasting_eq_ok_iff.mp h
    have nonneg := Amount.fixedSeconds_nonneg forward
    obtain ⟨told, moved⟩ := hz.start.second_of_plus? hz.steady (.inr nonneg)
      (Temporal.plus_eq_ok_iff.mp hstop)
    obtain ⟨reach, le, -⟩ := Temporal.reach_bounds c.start forward
    refine ⟨rfl, told, ?_, ?_⟩
    · show c.start.second ≤ stop.second
      omega
    · show stop.second ≤ c.start.second + _ + ite _ _ _
      split <;> omega
  unfold first at h
  split at h
  · rename_i stop hlength hstop
    have duration : c.duration = Amount.between c.start stop := by
      unfold Component.duration
      rw [hlength, hstop]
      rfl
    have told := hz.stop stop hstop
    obtain ⟨forward, rfl⟩ := Period.between_eq_ok_iff.mp h
    rw [Comparator.before_eq_false_iff, hz.start.key_toTheSecond hz.start,
      hz.start.key_toTheSecond told] at forward
    rw [duration]
    exact ⟨rfl, told, forward, hz.start.second_le_add_between told⟩
  · exact lasting h

/-- The entry's own start is looked up if the instance there meets the window. -/
theorem searched_first (hz : c.OnClock zoned window)
    (hsearch : window.start.minus c.duration = .ok searchStart)
    (h : c.first = .ok p) (meets : window.intersects p = true) :
    p.start = c.start ∧ c.Searched window searchStart p.start := by
  obtain ⟨found, search⟩ := second_searchStart hz hsearch
  obtain ⟨own, stopTold, forward, stop⟩ := seconds_first hz h
  have told : p.start.Told zoned := own ▸ hz.start
  obtain ⟨nonneg, le, short⟩ := Temporal.reach_bounds window.start hz.forward
  unfold Period.intersects Period.comparator Comparator.equal Comparator.before at meets
  simp only [hz.windowStart.key_toTheSecond hz.windowStart,
    hz.windowStart.key_toTheSecond hz.windowStop, hz.windowStart.key_toTheSecond told,
    hz.windowStart.key_toTheSecond stopTold, Bool.or_eq_true, Bool.and_eq_true,
    decide_eq_true_eq] at meets
  refine ⟨own, searched_of_second hz found told ?_ (by omega)⟩
  rcases meets with ⟨same, -⟩ | ⟨overlap, -⟩
  · omega
  · cases timed : window.start.isDateTime with
    | true =>
      have all := Temporal.reach_of_isDateTime timed c.duration
      split at stop <;> omega
    | false =>
      -- the entry starts on a date, as the window does: both are whole days
      obtain ⟨first, hfirst⟩ := Temporal.exists_date timed
      have untimed : p.start.isDateTime = false := by
        rw [own]
        exact Bool.not_eq_true _ ▸ fun has => Bool.false_ne_true (timed.symm.trans (hz.timed has))
      obtain ⟨day, hday⟩ := Temporal.exists_date untimed
      have plain : (p.start.instantIn Zone.utc).leap = false := by
        rw [hday, Temporal.instantIn_utc rfl]
        rfl
      have whole := Temporal.reach_date first c.duration
      rw [plain, if_neg Bool.false_ne_true] at stop
      rw [hfirst] at overlap search le short nonneg
      rw [hday, Temporal.second_date] at stop ⊢
      rw [Temporal.second_date] at overlap search
      omega

/-- An instance that has not been added as it is starts where starts are looked up, at a time of day
    where the entry does. -/
theorem searched_of_mem_instances (hz : c.OnClock zoned window)
    (hsearch : window.start.minus c.duration = .ok searchStart)
    (h : c.instances window = .ok set) (hp : p ∈ set.members) (own : .period p ∉ c.additions) :
    p.start.Told zoned ∧ (c.start.isDateTime = true → p.start.isDateTime = true) ∧
      c.Searched window searchStart p.start := by
  obtain ⟨found, search⟩ := second_searchStart hz hsearch
  obtain mem | ⟨mem, inside⟩ | ⟨first, meets⟩ | ⟨r, -, listed⟩ :=
    start_of_mem_instances h hp hsearch
  · exact absurd mem own
  · obtain ⟨told, timed⟩ := hz.added p.start mem
    have nonneg := (Temporal.reach_bounds window.start hz.forward).1
    unfold Period.includes Period.comparator at inside
    simp only [Bool.and_eq_true, Bool.not_eq_true', Comparator.before_eq_false_iff,
      Comparator.after_eq_false_iff, hz.windowStart.key_toTheSecond hz.windowStart,
      hz.windowStart.key_toTheSecond hz.windowStop, hz.windowStart.key_toTheSecond told] at inside
    exact ⟨told, timed, searched_of_second hz found told (by omega) inside.2⟩
  · obtain ⟨e, searched⟩ := searched_first hz hsearch first meets
    rw [e] at searched ⊢
    exact ⟨hz.start, id, searched⟩
  · obtain ⟨kind, searched⟩ := searched_of_mem_dates listed
    exact ⟨hz.start.of_sameKind kind,
      fun timed => (Temporal.isDateTime_of_kindRank kind.1).trans timed, searched⟩

/-- **What an occurrence excludes is looked up where the occurrence is**, if one clock can tell it. -/
theorem searched_of_excludes (hstart : c.start.Told zoned) (kind : t.SameKind c.start)
    (hs : s.Told zoned) (timed : c.start.isDateTime = true → s.isDateTime = true)
    (searched : c.Searched window searchStart s) (taken : excludes t s = true) :
    c.Searched window searchStart t := by
  have ht : t.Told zoned := hstart.of_sameKind kind
  have alike := Temporal.isDateTime_of_kindRank kind.1
  have same : (Comparator.forSeed c.start).key t = (Comparator.forSeed c.start).key s := by
    cases entry : c.start.isDateTime with
    | true =>
      rw [excludes_of_isDateTime (alike.trans entry)] at taken
      have equal : (Comparator.forSeed s).key t = (Comparator.forSeed s).key s :=
        of_decide_eq_true taken
      rw [hs.key_forSeed (timed entry) ht, hs.key_forSeed (timed entry) hs] at equal
      rwa [hstart.key_forSeed entry ht, hstart.key_forSeed entry hs]
    | false =>
      obtain ⟨day, rfl⟩ := Temporal.exists_date (alike.trans entry)
      cases zoned with
      | true => cases (Temporal.isDateTime_of_not_floating hstart).symm.trans entry
      | false =>
        have day' : s.toDate = day := of_decide_eq_true taken
        rw [Comparator.key_forSeed hstart ht, Comparator.key_forSeed hstart hs, entry,
          if_neg Bool.false_ne_true, if_neg Bool.false_ne_true, day']
        exact congrArg Date.day (Civil.date_midnight day)
  unfold Searched Comparator.before Comparator.after at searched ⊢
  rwa [same]

/-! ## 4. Exceptions are kept off -/

/-- **Instances keep off the exceptions.** No instance of an entry in a window starts on a date that
    is excepted, or at a time that is excepted. Nor does one start at a date that an exception rule
    lists in the search for the window, which for a rule that counts, or without zones has neither a
    skip policy nor a guard, are all of its occurrences that are looked up there.

    No instance starts at any occurrence of such an exception rule, if the rules of the entry list the
    start, or if one clock can tell the entry and the window: in that case periods that are added
    as they are have to start where starts are looked up. -/
theorem instances_keep_off_exceptions (c : Component) (window : Period) {set : PeriodList}
    (hset : c.instances window = .ok set) {p : Period} (hp : p ∈ set.members) :
    (∀ d, .date d ∈ c.exceptions → p.start.toDate ≠ d) ∧
      (∀ t ∈ c.exceptions, t.isDateTime = true →
        (Comparator.forSeed p.start).equal t p.start = false) ∧
      ∃ searchStart, window.start.minus c.duration = .ok searchStart ∧
        ∀ r ∈ c.exceptionRules,
          (∀ t ∈ r.dates c.start searchStart window.stop none, excludes t p.start = false) ∧
          (r.SeenFrom c.start searchStart →
            (∀ t ∈ (r.occurrences c.start).toList,
              c.Searched window searchStart t → excludes t p.start = false) ∧
            ((∃ rule ∈ c.rules, p.start ∈ rule.dates c.start searchStart window.stop none) ∨
              (∃ zoned, c.OnClock zoned window ∧ (.period p ∈ c.additions →
                p.start.Told zoned ∧ (c.start.isDateTime = true → p.start.isDateTime = true) ∧
                  c.Searched window searchStart p.start)) →
              ∀ t ∈ (r.occurrences c.start).toList, excludes t p.start = false)) := by
  obtain ⟨-, searchStart, -, -, hsearch, -⟩ := instances_eq_ok hset
  have off := not_excluded_of_mem_instances hset hp hsearch
  have listed : ∀ r ∈ c.exceptionRules, ∀ t ∈ r.dates c.start searchStart window.stop none,
      excludes t p.start = false := fun r hr t ht =>
    off t (List.mem_append_right _ (List.mem_flatMap.mpr ⟨r, hr, ht⟩))
  have occurring : ∀ r ∈ c.exceptionRules, r.SeenFrom c.start searchStart →
      ∀ t ∈ (r.occurrences c.start).toList, c.Searched window searchStart t →
        excludes t p.start = false := fun r hr seen t ht searched =>
    listed r hr t ((Rule.mem_dates_iff_of_seen seen).mpr ⟨ht, searched⟩)
  refine ⟨fun d hd => ?_, fun t ht timed => ?_,
    searchStart, hsearch, fun r hr => ⟨listed r hr, fun seen => ⟨occurring r hr seen, ?_⟩⟩⟩
  · exact of_decide_eq_false (off (.date d) (List.mem_append_left _ hd))
  · rw [← excludes_of_isDateTime timed]
    exact off t (List.mem_append_left _ ht)
  · intro starts t ht
    have kind := (Series.proper_of_mem_toList _ ht).kind
    -- an occurrence that would take the instance away would be looked up, for the instance is
    refine Bool.not_eq_true _ ▸ fun taken => ?_
    have there : c.Searched window searchStart t := by
      rcases starts with ⟨rule, -, listed⟩ | ⟨zoned, hz, added⟩
      · obtain ⟨own, searched⟩ := searched_of_mem_dates listed
        exact searched_of_sameKind kind own searched taken
      · obtain ⟨told, timed, searched⟩ : p.start.Told zoned ∧
            (c.start.isDateTime = true → p.start.isDateTime = true) ∧
              c.Searched window searchStart p.start := by
          by_cases own : .period p ∈ c.additions
          · exact added own
          · exact searched_of_mem_instances hz hsearch hset hp own
        exact searched_of_excludes hz.start kind told timed searched taken
    rw [occurring r hr seen t ht there] at taken
    cases taken

/-- Every other day, five times. -/
def everyOtherDay : Rule where
  frequency := .daily
  parts := { RuleParts.none with interval := some 2, ending := some (.count 5) }
  settings := { Settings.standard with emptyLimit := 0 }
  valid := by decide

/-- Ten days from 1 January 2024 on, for an hour at nine in the morning, but not on the 8th, nor on every
    other day. From the 5th it takes until noon of the day after instead. -/
def shifts : Component :=
  { Component.once watch.start with
    length := some (.exact .hour)
    additions := [.period (.span (.utc ⟨63871664400, false, by decide, by decide⟩)
      (.utc ⟨63871761600, false, by decide, by decide⟩))]
    rules := [{ frequency := .daily, parts := { RuleParts.none with ending := some (.count 10) },
                settings := .standard, valid := by decide }]
    exceptions := [.date ⟨739258, by decide, by decide⟩]
    exceptionRules := [everyOtherDay] }

/-- The sixth day of it. -/
def sixthDay : Period :=
  .span (.utc ⟨63871718400, false, by decide, by decide⟩)
    (.utc ⟨63871804800, false, by decide, by decide⟩)

/-- Nine in the morning of the fifth day, and of the sixth. -/
def fifthStart : Temporal := .utc ⟨63871664400, false, by decide, by decide⟩
def sixthStart : Temporal := .utc ⟨63871750800, false, by decide, by decide⟩

/-- On the sixth day there is the hour of that day, which no exception takes away, behind the rest of
    what began the day before. -/
theorem instances_of_sixthDay : ∃ set, shifts.instances sixthDay = .ok set ∧
    set.members.map Period.start = [fifthStart, sixthStart] := by
  have told : (shifts.instances sixthDay).toOption.map (fun set => set.members.map Period.start) =
      some [fifthStart, sixthStart] := by decide +kernel
  cases h : shifts.instances sixthDay with
  | error fault =>
    rw [h] at told
    cases told
  | ok set =>
    rw [h] at told
    exact ⟨set, rfl, Option.some.inj told⟩

theorem shifts_keep_off_exceptions :
    ∃ set p searchStart, (shifts.instances sixthDay = .ok set ∧ p ∈ set.members ∧
        sixthDay.start.minus shifts.duration = .ok searchStart ∧ shifts.OnClock true sixthDay ∧
        .period p ∉ shifts.additions ∧
        ∀ r ∈ shifts.exceptionRules, r.SeenFrom shifts.start searchStart) ∧
      p.start.toDate ≠ ⟨739258, by decide, by decide⟩ ∧
      ∀ r ∈ shifts.exceptionRules, ∀ t ∈ (r.occurrences shifts.start).toList,
        excludes t p.start = false := by
  obtain ⟨set, hset, starts⟩ := instances_of_sixthDay
  obtain ⟨p, hp, sixth⟩ := List.mem_map.mp
    (starts ▸ List.mem_cons_of_mem _ List.mem_cons_self : sixthStart ∈ set.members.map Period.start)
  have clock : shifts.OnClock true sixthDay := {
    start := rfl
    stop := fun _ h => by cases h
    added := fun _ h => by simp [shifts] at h
    windowStart := rfl
    windowStop := rfl
    timed := id
    plain := rfl
    forward := rfl
    steady := ⟨.hour, rfl⟩ }
  have own : .period p ∉ shifts.additions := fun mem => by
    cases List.mem_singleton.mp mem
    cases sixth
  obtain ⟨dates, -, searchStart, hsearch, rules⟩ :=
    instances_keep_off_exceptions shifts sixthDay hset hp
  have seen : ∀ r ∈ shifts.exceptionRules, r.SeenFrom shifts.start searchStart := fun r hr => by
    cases List.mem_singleton.mp hr
    exact .inl rfl
  exact ⟨set, p, searchStart, ⟨hset, hp, hsearch, clock, own, seen⟩, dates _ List.mem_cons_self,
    fun r hr => ((rules r hr).2 (seen r hr)).2
      (.inr ⟨true, clock, fun mem => absurd mem own⟩)⟩

/-- **An added period that starts before the search stays**, although an exception rule without a guard
    has an occurrence at its start. -/
theorem early_period_kept :
    ∃ set, shifts.instances sixthDay = .ok set ∧ ∃ p ∈ set.members, ∃ r ∈ shifts.exceptionRules,
      r.settings.emptyLimit ≤ 0 ∧ ∃ t ∈ (r.occurrences shifts.start).toList,
        (Comparator.forSeed p.start).equal t p.start = true := by
  obtain ⟨set, hset, starts⟩ := instances_of_sixthDay
  obtain ⟨p, hp, fifth⟩ := List.mem_map.mp
    (starts ▸ List.mem_cons_self : fifthStart ∈ set.members.map Period.start)
  have occurs : fifthStart ∈ (everyOtherDay.occurrences shifts.start).toList := by decide +kernel
  refine ⟨set, hset, p, hp, everyOtherDay, List.mem_singleton_self _, Int.le_refl 0, fifthStart,
    occurs, ?_⟩
  rw [fifth]
  exact decide_eq_true rfl

end Almanac.Component
