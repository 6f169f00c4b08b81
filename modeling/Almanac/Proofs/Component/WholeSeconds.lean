import Almanac.Proofs.Component.Instances
import Almanac.Proofs.Period.Forward
import Almanac.Proofs.Rule.Midnight
import Almanac.Proofs.Series.Agreement

/-!
# Whole seconds

A leap second comes in by a value that is given. An entry of which no value is one takes place
without them. This file fixes

* **no step leads to a leap second from elsewhere**: not from one increment to another
  (`Frequency.plain_of_advance?`), not from an increment to its candidates
  (`Rule.leap_of_mem_civilCandidates`), and so not from a seed to what a rule lists
  (`Rule.plain_of_mem_dates`);
* so **the instances of an entry in whole seconds lie between whole seconds**
  (`Component.isWhole_of_mem_instances`).
-/

namespace Almanac

/-! ## 1. Increments -/

/-- Moving on by units leads to no leap second from elsewhere. -/
theorem Frequency.plain_of_advance? {f : Frequency} {c d : Civil} {units : Nat}
    (plain : c.leap = false) (h : f.advance? c units = some d) : d.leap = false := by
  have seconds {n : Int} (h : c.addSeconds? n = some d) : d.leap = false :=
    ((Civil.addSeconds?_eq_some_iff_of_plain plain).mp h).2
  have months {n : Int} (h : c.addMonths? n = some d) : d.leap = false := by
    obtain ⟨_, -, rfl⟩ := Option.map_eq_some_iff.mp h
    exact plain
  cases f with
  | secondly => exact seconds h
  | minutely => exact seconds h
  | hourly => exact seconds h
  | daily => exact seconds h
  | weekly => exact seconds h
  | monthly => exact months h
  | yearly => exact months h

/-! ## 2. Candidates -/

namespace Rule

variable {r : Rule} {c x root period : Civil} {seed start stop t : Temporal}

/-- Every stage leaves the leap mark alone. -/
theorem leap_of_mem_stages {dateOnly : Bool} {stage : Civil → List Civil}
    (hs : stage ∈ r.stages root dateOnly) (h : x ∈ stage c) : x.leap = c.leap := by
  have date {stage : Civil → List Civil} (hs : stage ∈ r.stages root true) (h : x ∈ stage c) :
      x.leap = c.leap :=
    (Prod.mk.inj ((r.dateStage_of_mem_stages hs).clock c x h)).2
  cases dateOnly with
  | true => exact date hs h
  | false =>
    have cut : r.stages root false = r.stages root true ++
        (stageOf r.parts.hours r.byHour ++ stageOf r.parts.minutes r.byMinute ++
          stageOf r.parts.seconds r.bySecond) := by simp [stages]
    rw [cut] at hs
    simp only [List.mem_append] at hs
    rcases hs with hs | (hs | hs) | hs
    · exact date hs h
    · rw [mem_stageOf hs] at h
      rcases mem_byClock h with rfl | ⟨-, _, -, hx⟩
      · rfl
      · exact (Civil.withHour?_eq_some_iff.mp hx).2.2.2.2
    · rw [mem_stageOf hs] at h
      rcases mem_byClock h with rfl | ⟨-, _, -, hx⟩
      · rfl
      · exact (Civil.withMinute?_eq_some_iff.mp hx).2.2.2.2
    · rw [mem_stageOf hs] at h
      rcases mem_byClock h with rfl | ⟨-, _, -, hx⟩
      · rfl
      · exact (Civil.withSecond?_eq_some_iff.mp hx).2.2.2.2

/-- **The civil times of an increment have the leap mark of the increment.** -/
theorem leap_of_mem_civilCandidates {dateOnly : Bool}
    (h : x ∈ r.civilCandidates root period dateOnly) : x.leap = period.leap :=
  eq_of_mem_foldl_runStage Civil.leap period.leap (fun _ hs _ _ hx => leap_of_mem_stages hs hx)
    [period] (fun c hc => by rw [List.mem_singleton.mp hc]) x (mem_of_mem_byPosition h)

/-- **From a seed in no zone that is no leap second a rule lists none.** -/
theorem plain_of_mem_dates (hs : seed.zone? = none) (plain : seed.localTime.leap = false)
    (h : t ∈ r.dates seed start stop none) : t.localTime.leap = false := by
  obtain ⟨k, period, hperiod, mem⟩ :=
    ((r.within seed start stop).proper_of_mem_toList h).offered
  rw [Series.origin_of_unzoned hs] at hperiod
  rw [Series.candidates_of_unzoned hs] at mem
  obtain ⟨x, hx, value⟩ := List.mem_filterMap.mp (mem_of_mem_ascending mem)
  rw [valueAt?_none] at value
  rw [Temporal.leap_of_withCivil hs value, leap_of_mem_civilCandidates hx,
    Frequency.plain_of_advance? plain hperiod, Bool.and_false]

end Rule

/-! ## 3. Instances -/

/-- Values that are no leap seconds. -/
def Temporal.IsWhole (t : Temporal) : Prop := (t.instantIn Zone.utc).leap = false

instance (t : Temporal) : Decidable t.IsWhole := inferInstanceAs (Decidable (_ = _))

theorem Temporal.isWhole_iff {t : Temporal} (hz : t.zone? = none) :
    t.IsWhole ↔ t.localTime.leap = false := by
  rw [IsWhole, instantIn_utc hz]

/-- A period neither bound of which is a leap second. -/
def Period.IsWhole (p : Period) : Prop := p.start.IsWhole ∧ p.stop.IsWhole

instance (p : Period) : Decidable p.IsWhole := inferInstanceAs (Decidable (_ ∧ _))

/-- What lasts from a whole second on stops at one. -/
theorem Period.isWhole_of_lasting {p : Period} {start : Temporal} {length : Amount}
    (hs : start.IsInstant) (whole : start.IsWhole) (h : lasting start length = .ok p) :
    p.IsWhole := by
  have instants := isInstants_of_lasting hs h
  obtain ⟨-, stop, hstop, rfl⟩ := lasting_eq_ok_iff.mp h
  have plain := (Temporal.isWhole_iff hs.zone?).mp whole
  have plain' := Temporal.plain_of_plus? hs.zone? plain (Temporal.plus_eq_ok_iff.mp hstop)
  exact ⟨whole, (Temporal.isWhole_iff instants.stop.zone?).mpr plain'⟩

/-- An addition that brings no leap second in. -/
def Addition.IsWhole : Addition → Prop
  | instant start => start.IsWhole
  | period span => span.IsWhole

instance (a : Addition) : Decidable a.IsWhole :=
  match a with
  | .instant _ => inferInstanceAs (Decidable (Temporal.IsWhole _))
  | .period _ => inferInstanceAs (Decidable (Period.IsWhole _))

namespace Component

variable {c : Component} {window p : Period} {set : PeriodList}

/-- An entry of which neither start nor stop nor an addition is a leap second. -/
structure IsWhole (c : Component) : Prop where
  start : c.start.IsWhole
  stop : ∀ t ∈ c.stop, t.IsWhole
  additions : ∀ a ∈ c.additions, a.IsWhole

instance (c : Component) : Decidable c.IsWhole :=
  decidable_of_iff
    (c.start.IsWhole ∧ (∀ t ∈ c.stop, t.IsWhole) ∧ ∀ a ∈ c.additions, a.IsWhole)
    ⟨fun ⟨start, stop, additions⟩ => ⟨start, stop, additions⟩,
      fun ⟨start, stop, additions⟩ => ⟨start, stop, additions⟩⟩

/-- **The instances of an entry in whole seconds lie between whole seconds.** -/
theorem isWhole_of_mem_instances (hc : c.IsInstants) (whole : c.IsWhole)
    (h : c.instances window = .ok set) (hp : p ∈ set.members) : p.IsWhole := by
  cases origin_of_mem_instances h hp with
  | added mem => exact whole.additions _ mem
  | addedStart mem lasts =>
    exact Period.isWhole_of_lasting (hc.additions _ mem) (whole.additions _ mem) lasts
  | own first =>
    unfold Component.first at first
    split at first
    · rename_i stop _ hstop
      obtain ⟨-, rfl⟩ := Period.between_eq_ok_iff.mp first
      exact ⟨whole.start, whole.stop stop hstop⟩
    · exact Period.isWhole_of_lasting hc.start whole.start first
  | rule searchStart listed lasts =>
    obtain ⟨r, -, mem⟩ := listed
    have start := isInstant_of_mem_dates hc.start mem
    have plain := Rule.plain_of_mem_dates hc.start.zone?
      ((Temporal.isWhole_iff hc.start.zone?).mp whole.start) mem
    exact Period.isWhole_of_lasting start ((Temporal.isWhole_iff start.zone?).mpr plain) lasts

end Component

end Almanac
