import Almanac.Component
import Almanac.Proofs.Period.Order
import Almanac.Proofs.PeriodList.Members
import Almanac.Proofs.Series.Bounds
import Almanac.Proofs.Temporal.Steps
import Almanac.Proofs.Text.Results

/-!
# Instances of an entry

The instances of an entry in a window come from its additions, from its rules, and, if it has none,
from its own start. This file fixes

* what the instances are made of when they can be told at all (`Component.instances_eq_ok`);
* **where each of them comes from** (`Component.origin_of_mem_instances`): it is an added period, or
  a period of the entry's duration from an added start or an occurrence on, or the entry's own first
  period;
* **the instances of an entry given in instants are periods between instants**
  (`Component.isInstants_of_mem_instances`), so one clock tells them all.
-/

namespace Almanac

/-! ## 1. Instants -/

/-- Values that are given as instants, in no zone. -/
def Temporal.IsInstant : Temporal → Prop
  | utc _ => True
  | _ => False

instance (t : Temporal) : Decidable t.IsInstant :=
  match t with
  | .utc _ => isTrue trivial
  | .date _ => isFalse id
  | .floating _ => isFalse id
  | .zoned _ => isFalse id

namespace Temporal.IsInstant

variable {t u : Temporal}

theorem exists_eq (h : t.IsInstant) : ∃ i, t = utc i := by
  cases t with
  | utc i => exact ⟨i, rfl⟩
  | date _ => cases h
  | floating _ => cases h
  | zoned _ => cases h

theorem zone? (h : t.IsInstant) : t.zone? = none := by
  obtain ⟨i, rfl⟩ := h.exists_eq
  rfl

/-- Every clock tells instants. -/
theorem onClock (h : t.IsInstant) (zoned : Bool) : t.OnClock zoned := by
  obtain ⟨i, rfl⟩ := h.exists_eq
  cases zoned with
  | true => exact ⟨rfl, rfl⟩
  | false => exact ⟨rfl, rfl⟩

theorem of_sameKind (h : t.IsInstant) (same : u.SameKind t) : u.IsInstant := by
  obtain ⟨i, rfl⟩ := h.exists_eq
  cases u with
  | utc i => trivial
  | date _ => cases same.1
  | floating _ => cases same.1
  | zoned _ => cases same.1

end Temporal.IsInstant

/-! ## 2. Periods between instants -/

namespace Period

variable {zoned : Bool} {p q : Period} {start : Temporal} {length : Amount}

/-- A period between instants, the second of which is not earlier. -/
structure IsInstants (p : Period) : Prop where
  start : p.start.IsInstant
  stop : p.stop.IsInstant
  forward : p.comparator.before p.stop p.start = false

instance (p : Period) : Decidable p.IsInstants :=
  decidable_of_iff
    (p.start.IsInstant ∧ p.stop.IsInstant ∧ p.comparator.before p.stop p.start = false)
    ⟨fun ⟨start, stop, forward⟩ => ⟨start, stop, forward⟩,
      fun ⟨start, stop, forward⟩ => ⟨start, stop, forward⟩⟩

theorem IsInstants.onClock (h : p.IsInstants) (zoned : Bool) : p.OnClock zoned :=
  ⟨h.start.onClock zoned, h.stop.onClock zoned, h.forward⟩

/-- Periods between instants that are the same have the same bounds. -/
theorem IsInstants.bounds_eq (hp : p.IsInstants) (hq : q.IsInstants)
    (h : compare p q = .eq) : p.start = q.start ∧ p.stop = q.stop :=
  bounds_eq_of_compare ⟨hp.start.zone?, hp.stop.zone?⟩ ⟨hq.start.zone?, hq.stop.zone?⟩ h

/-- What lasts from an instant on stops at an instant. -/
theorem isInstants_of_lasting (hs : start.IsInstant) (h : lasting start length = .ok p) :
    p.IsInstants := by
  obtain ⟨forward, stop, hstop, rfl⟩ := lasting_eq_ok_iff.mp h
  obtain ⟨i, rfl⟩ := hs.exists_eq
  obtain ⟨j, rfl, le⟩ := Temporal.stamp_le_of_plus?_utc forward (Temporal.plus_eq_ok_iff.mp hstop)
  exact ⟨trivial, trivial, Comparator.before_eq_false_iff.mpr le⟩

theorem isInstants_of_between {stop : Temporal} (hs : start.IsInstant) (ht : stop.IsInstant)
    (h : between start stop = .ok p) : p.IsInstants := by
  obtain ⟨forward, rfl⟩ := between_eq_ok_iff.mp h
  exact ⟨hs, ht, forward⟩

end Period

/-! ## 3. Where instances come from -/

/-- An addition given in instants, a period not before its own start. -/
def Addition.IsInstants : Addition → Prop
  | instant start => start.IsInstant
  | period span => span.IsInstants

instance (a : Addition) : Decidable a.IsInstants :=
  match a with
  | .instant _ => inferInstanceAs (Decidable (Temporal.IsInstant _))
  | .period _ => inferInstanceAs (Decidable (Period.IsInstants _))

namespace Component

variable {c : Component} {window p : Period} {set : PeriodList}

/-- An entry whose start, stop and additions are given as instants. -/
structure IsInstants (c : Component) : Prop where
  start : c.start.IsInstant
  stop : ∀ t ∈ c.stop, t.IsInstant
  additions : ∀ a ∈ c.additions, a.IsInstants

instance (c : Component) : Decidable c.IsInstants :=
  decidable_of_iff
    (c.start.IsInstant ∧ (∀ t ∈ c.stop, t.IsInstant) ∧ ∀ a ∈ c.additions, a.IsInstants)
    ⟨fun ⟨start, stop, additions⟩ => ⟨start, stop, additions⟩,
      fun ⟨start, stop, additions⟩ => ⟨start, stop, additions⟩⟩

/-- **What the instances are made of**, when they can be told. -/
theorem instances_eq_ok (h : c.instances window = .ok set) :
    ∃ additions searchStart regular,
      c.additions.mapM (c.added window) = .ok additions ∧
      window.start.minus c.duration = .ok searchStart ∧
      c.regular searchStart window = .ok regular ∧
      set = (PeriodList.empty.insertAll (additions.filterMap id ++ regular)).filter fun p =>
        !(c.exceptions ++ c.starts searchStart window c.exceptionRules).any fun exception =>
          excludes exception p.start := by
  obtain ⟨additions, hadditions, h⟩ := Results.bind_eq_ok h
  obtain ⟨searchStart, hsearch, h⟩ := Results.bind_eq_ok h
  obtain ⟨regular, hregular, h⟩ := Results.bind_eq_ok h
  cases h
  exact ⟨additions, searchStart, regular, hadditions, hsearch, hregular, rfl⟩

/-- What lies behind an instance. -/
inductive Origin (c : Component) (window p : Period) : Prop where
  /-- It has been added as it is. -/
  | added (h : .period p ∈ c.additions)
  /-- Its start has been added. -/
  | addedStart (h : .instant p.start ∈ c.additions)
      (lasts : Period.lasting p.start c.duration = .ok p)
  /-- It is the entry's own first period. -/
  | own (h : c.first = .ok p)
  /-- A rule lists its start. -/
  | rule (searchStart : Temporal)
      (h : ∃ r ∈ c.rules, p.start ∈ r.dates c.start searchStart window.stop none)
      (lasts : Period.lasting p.start c.duration = .ok p)

theorem start_of_lasting {start : Temporal} {length : Amount}
    (h : Period.lasting start length = .ok p) : p.start = start := by
  obtain ⟨-, _, -, rfl⟩ := Period.lasting_eq_ok_iff.mp h
  rfl

/-- What an addition brings to a window: itself if it meets the window, or the period from a start in
    the window on. -/
theorem added_eq_some {addition : Addition} (h : c.added window addition = .ok (some p)) :
    (addition = .period p ∧ window.intersects p = true) ∨
      (addition = .instant p.start ∧ window.includes p.start = true ∧
        Period.lasting p.start c.duration = .ok p) := by
  cases addition with
  | period span =>
    simp only [added] at h
    split at h
    · rename_i meets
      cases h
      exact .inl ⟨rfl, meets⟩
    · cases h
  | instant start =>
    simp only [added] at h
    split at h
    · rename_i inside
      obtain ⟨q, lasts, e⟩ := Results.map_eq_ok h
      cases e
      obtain rfl := start_of_lasting lasts
      exact .inr ⟨rfl, inside, lasts⟩
    · cases h

/-- By rule, one instance is due for each start. -/
theorem regular_of_rules (some' : c.rules ≠ []) (searchStart : Temporal) (window : Period) :
    c.regular searchStart window =
      (c.starts searchStart window c.rules).mapM fun start => Period.lasting start c.duration := by
  unfold Component.regular
  rw [if_neg (by rw [List.isEmpty_eq_false_iff.mpr some']; exact Bool.false_ne_true)]

/-- What is due by rule or, without rules, by the entry's own start. -/
theorem due_of_mem_regular {searchStart : Temporal} {regular : List Period}
    (h : c.regular searchStart window = .ok regular) (hp : p ∈ regular) :
    (c.first = .ok p ∧ window.intersects p = true) ∨
      ((∃ r ∈ c.rules, p.start ∈ r.dates c.start searchStart window.stop none) ∧
        Period.lasting p.start c.duration = .ok p) := by
  unfold Component.regular at h
  split at h
  · obtain ⟨q, first, rfl⟩ := Results.map_eq_ok h
    split at hp
    · rename_i meets
      cases List.mem_singleton.mp hp
      exact .inl ⟨first, meets⟩
    · cases hp
  · obtain ⟨start, hs, lasts⟩ := Results.exists_of_mem_mapM h hp
    have e := start_of_lasting lasts
    exact .inr ⟨List.mem_flatMap.mp (e ▸ hs), e ▸ lasts⟩

/-- An instance has been added, or it is due. -/
theorem added_or_regular_of_mem_instances (h : c.instances window = .ok set)
    (hp : p ∈ set.members) :
    (∃ addition ∈ c.additions, c.added window addition = .ok (some p)) ∨
      ∃ searchStart regular, window.start.minus c.duration = .ok searchStart ∧
        c.regular searchStart window = .ok regular ∧ p ∈ regular := by
  obtain ⟨additions, searchStart, regular, hadditions, hsearch, hregular, rfl⟩ := instances_eq_ok h
  rcases PeriodList.mem_of_mem_insertAll (List.mem_filter.mp hp).1 with none | mem
  · cases none
  · rcases List.mem_append.mp mem with mem | mem
    · obtain ⟨found, hfound, e⟩ := List.mem_filterMap.mp mem
      cases e
      exact .inl (Results.exists_of_mem_mapM hadditions hfound)
    · exact .inr ⟨searchStart, regular, hsearch, hregular, mem⟩

/-- **Where an instance comes from.** -/
theorem origin_of_mem_instances (h : c.instances window = .ok set) (hp : p ∈ set.members) :
    Origin c window p := by
  rcases added_or_regular_of_mem_instances h hp with
    ⟨addition, mem, brings⟩ | ⟨searchStart, regular, -, hregular, mem⟩
  · rcases added_eq_some brings with ⟨rfl, -⟩ | ⟨rfl, -, lasts⟩
    · exact .added mem
    · exact .addedStart mem lasts
  · rcases due_of_mem_regular hregular mem with ⟨first, -⟩ | ⟨listed, lasts⟩
    · exact .own first
    · exact .rule searchStart listed lasts

/-- What a rule lists from an instant on are instants. -/
theorem isInstant_of_mem_dates {r : Rule} {seed start stop t : Temporal} (hseed : seed.IsInstant)
    (h : t ∈ r.dates seed start stop none) : t.IsInstant :=
  hseed.of_sameKind ((r.within seed start stop).proper_of_mem_toList h).kind

/-- **The instances of an entry given in instants are periods between instants.** -/
theorem isInstants_of_mem_instances (hc : c.IsInstants) (h : c.instances window = .ok set)
    (hp : p ∈ set.members) : p.IsInstants := by
  cases origin_of_mem_instances h hp with
  | added mem => exact hc.additions _ mem
  | addedStart mem lasts => exact Period.isInstants_of_lasting (hc.additions _ mem) lasts
  | own first =>
    unfold Component.first at first
    split at first
    · rename_i stop _ hstop
      exact Period.isInstants_of_between hc.start (hc.stop stop hstop) first
    · exact Period.isInstants_of_lasting hc.start first
  | rule searchStart listed lasts =>
    obtain ⟨r, -, mem⟩ := listed
    exact Period.isInstants_of_lasting (isInstant_of_mem_dates hc.start mem) lasts

end Component

end Almanac
