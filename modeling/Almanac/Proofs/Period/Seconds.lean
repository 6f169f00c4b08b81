import Almanac.Period.Basic

/-!
# The second of a value

Periods compare whole seconds, each in the zone of the period that is asked. This file fixes

* **the second of a value** (`Temporal.second`), which is told without a zone: floating times are read
  in UTC. Among date-times of which none floats, or none is zoned, every period compares by this one
  number (`Temporal.key_toTheSecond`);
* **the place of a value in time** (`Temporal.rank`), which has a leap second after the second that it
  follows. The order of values, and so that of periods, goes along with it
  (`Temporal.rank_le_of_compare`, `Period.rank_le_of_lt`).
-/

namespace Almanac

/-! ## 1. The second of a value -/

namespace Temporal

/-- The second that a value lies in; what stands in no zone is read in UTC. A leap second is one with
    the second that it follows. -/
def second (t : Temporal) : Int := (t.instantIn Zone.utc).stamp

/-- Date-times that one clock can tell: where zones occur none floats, and where none occur they may
    float. -/
def OnClock (zoned : Bool) (t : Temporal) : Prop :=
  t.isDateTime = true ∧ if zoned then t.isFloating = false else t.zone? = none

instance (zoned : Bool) (t : Temporal) : Decidable (t.OnClock zoned) :=
  inferInstanceAs (Decidable (_ ∧ if zoned then _ else _))

/-- What does not float is one instant in every zone. -/
theorem instantIn_eq_of_not_floating {t : Temporal} (h : t.isFloating = false) (a b : Zone) :
    t.instantIn a = t.instantIn b := by
  cases t with
  | date _ => cases h
  | floating _ => cases h
  | utc _ => rfl
  | zoned _ => rfl

/-- **On one clock all values are compared by their seconds.** -/
theorem key_toTheSecond {zoned : Bool} {a t : Temporal} (ha : a.OnClock zoned)
    (ht : t.OnClock zoned) : (Comparator.toTheSecond a).key t = t.second := by
  cases zoned with
  | true => exact congrArg Civil.stamp (instantIn_eq_of_not_floating ht.2 _ _)
  | false =>
    have unzoned : a.zone? = none := ha.2
    show (t.instantIn a.zoneOrUtc).stamp = _
    rw [zoneOrUtc, unzoned]
    rfl

/-! ## 2. The place of a value -/

/-- The place of a value in the order of time; what stands in no zone is read in UTC. -/
def rank (t : Temporal) : Int := (t.instantIn Zone.utc).rank

theorem rank_instantIn (t : Temporal) : (t.instantIn Zone.utc).rank = t.rank := rfl

/-- A place tells the second, and whether it is the leap second that follows it. -/
theorem rank_eq (t : Temporal) :
    t.rank = 2 * t.second + if (t.instantIn Zone.utc).leap then 1 else 0 := rfl

theorem second_le_of_rank_le {a b : Temporal} (h : a.rank ≤ b.rank) : a.second ≤ b.second := by
  rw [rank_eq, rank_eq] at h
  split at h <;> split at h <;> omega

theorem rank_lt_of_second_lt {a b : Temporal} (h : a.second < b.second) : a.rank < b.rank := by
  rw [rank_eq, rank_eq]
  split <;> split <;> omega

theorem rank_le_of_compare {a b : Temporal} (h : Temporal.compare a b ≠ .gt) : a.rank ≤ b.rank := by
  refine Int.not_lt.mp fun lt => h ?_
  have first : compareOn (fun t : Temporal => (t.instantIn Zone.utc).rank) a b = .gt :=
    Int.compare_eq_gt.mpr lt
  show (compareOn _ a b).then _ = .gt
  rw [first]
  rfl

theorem compare_of_rank_lt {a b : Temporal} (h : a.rank < b.rank) : Temporal.compare a b = .lt := by
  have first : compareOn (fun t : Temporal => (t.instantIn Zone.utc).rank) a b = .lt :=
    Int.compare_eq_lt.mpr h
  show (compareOn _ a b).then _ = .lt
  rw [first]
  rfl

/-- Values that the natural order does not tell apart are of one kind and of one instant. -/
theorem compare_eq_iff {a b : Temporal} : Temporal.compare a b = .eq ↔
    a.instantIn Zone.utc = b.instantIn Zone.utc ∧ a.kindRank = b.kindRank := by
  show (compareOn _ a b).then (compareOn _ a b) = .eq ↔ _
  rw [Ordering.then_eq_eq]
  constructor
  · intro ⟨rank, kind⟩
    exact ⟨Civil.rank_injective (Int.compare_eq_eq.mp rank), Nat.compare_eq_eq.mp kind⟩
  · intro ⟨instant, kind⟩
    exact ⟨Int.compare_eq_eq.mpr (congrArg Civil.rank instant), Nat.compare_eq_eq.mpr kind⟩

theorem isDateTime_of_kindRank {a b : Temporal} (h : a.kindRank = b.kindRank) :
    a.isDateTime = b.isDateTime := by
  cases a <;> cases b <;> first | rfl | cases h

end Temporal

/-! ## 3. Periods -/

namespace Period

variable {zoned : Bool} {p q : Period}

/-- The seconds of the bounds of a period. -/
def seconds (p : Period) : Int × Int := (p.start.second, p.stop.second)

/-- A period between date-times on one clock, the second of which is not earlier. -/
structure OnClock (zoned : Bool) (p : Period) : Prop where
  start : p.start.OnClock zoned
  stop : p.stop.OnClock zoned
  forward : p.comparator.before p.stop p.start = false

instance (zoned : Bool) (p : Period) : Decidable (p.OnClock zoned) :=
  decidable_of_iff
    (p.start.OnClock zoned ∧ p.stop.OnClock zoned ∧ p.comparator.before p.stop p.start = false)
    ⟨fun ⟨start, stop, forward⟩ => ⟨start, stop, forward⟩,
      fun ⟨start, stop, forward⟩ => ⟨start, stop, forward⟩⟩

theorem compare_swap (p q : Period) : compare q p = (compare p q).swap := Std.OrientedCmp.eq_swap

theorem rank_le_of_lt (h : compare p q = .lt) : p.start.rank ≤ q.start.rank := by
  refine Temporal.rank_le_of_compare fun gt => ?_
  rw [compare_eq_then, gt] at h
  cases h

theorem compare_of_rank_lt (h : p.start.rank < q.start.rank) : compare p q = .lt := by
  rw [compare_eq_then, Temporal.compare_of_rank_lt h]
  rfl

/-- Periods that are the same are of one kind, and have their bounds in the same places. -/
theorem eq_of_compare (h : compare p q = .eq) :
    p.isDateTime = q.isDateTime ∧ p.start.rank = q.start.rank ∧ p.stop.rank = q.stop.rank := by
  rw [compare_eq_then, Ordering.then_eq_eq, Ordering.then_eq_eq, Temporal.compare_eq_iff,
    Temporal.compare_eq_iff] at h
  obtain ⟨⟨start, kind⟩, ⟨stop, -⟩, -⟩ := h
  exact ⟨Temporal.isDateTime_of_kindRank kind, congrArg Civil.rank start, congrArg Civil.rank stop⟩

end Period

end Almanac
