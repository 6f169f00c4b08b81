import Almanac.Proofs.Period.Seconds

/-!
# What periods cover

A date-time period covers the instants from its start to just before its stop (`Period.Covers`), in
the order of time: a leap second is an instant of its own, right after the second that it follows.
But periods compare whole seconds, to which these two are one. This file fixes

* **values that whole seconds are enough to compare** (`TimeScale`): the comparator of each of them puts
  all of them in the order of time. The bounds of periods on one clock are such values as long as
  none of them is the leap second right after another (`Separate`, `TimeScale.ofPeriods`);
* **on a scale the relations between periods compare the places of the bounds**
  (`Period.contains_iff`, `Period.joins_iff`), and a cover reaches from the earlier start to the later
  stop (`Period.onScale_cover`);
* periods that are the same cover the same (`Period.covers_of_compare`).
-/

namespace Almanac

/-! ## 1. What a period covers -/

/-- Whether a date-time period covers an instant: its start belongs to it, its stop does not. -/
def Period.Covers (p : Period) (i : Civil) : Prop :=
  p.isDateTime = true ∧ p.start.rank ≤ i.rank ∧ i.rank < p.stop.rank

instance (p : Period) (i : Civil) : Decidable (p.Covers i) :=
  inferInstanceAs (Decidable (_ ∧ _ ∧ _))

/-- The instants that a period lies between. -/
def Period.instants (p : Period) : Civil × Civil :=
  (p.start.instantIn Zone.utc, p.stop.instantIn Zone.utc)

theorem Period.instants_eq_iff {p q : Period} :
    p.instants = q.instants ↔ p.start.rank = q.start.rank ∧ p.stop.rank = q.stop.rank := by
  unfold instants
  rw [Prod.mk.injEq]
  exact and_congr ⟨congrArg Civil.rank, Civil.rank_injective⟩
    ⟨congrArg Civil.rank, Civil.rank_injective⟩

theorem Period.covers_of_compare {p q : Period} (h : compare p q = .eq) (i : Civil) :
    p.Covers i ↔ q.Covers i := by
  obtain ⟨kind, start, stop⟩ := eq_of_compare h
  unfold Covers
  rw [kind, start, stop]

/-! ## 2. Scales -/

/-- **Values that whole seconds are enough to compare**: date-times, of which each sets up a comparator
    that puts them all in the order of time. -/
structure TimeScale where
  tells : Temporal → Prop
  isDateTime : ∀ {t : Temporal}, tells t → t.isDateTime = true
  before_iff : ∀ {a s t : Temporal}, tells a → tells s → tells t →
    ((Comparator.toTheSecond a).before s t = true ↔ s.rank < t.rank)

/-- The bounds of the date-time periods among some periods. -/
def timeBounds (ps : List Period) : List Temporal :=
  (ps.filter Period.isDateTime).flatMap fun p => [p.start, p.stop]

/-- Whether the bounds of date-time periods are separate seconds: none is the leap second right after
    another. -/
def Separate (ps : List Period) : Prop :=
  ∀ s ∈ timeBounds ps, ∀ t ∈ timeBounds ps, s.second = t.second → s.rank = t.rank

instance (ps : List Period) : Decidable (Separate ps) :=
  inferInstanceAs (Decidable (∀ s ∈ timeBounds ps, ∀ t ∈ timeBounds ps, _))

/-- The start of the last minute of 2016. -/
def lastMinute : Temporal := .utc (.nearest 63650447940 false)

/-- The last second of 2016 before the leap second. -/
def lastSecond : Temporal := .utc (.nearest 63650447999 false)

/-- The leap second that ends 2016. -/
def leapSecond : Temporal := .utc (.nearest 63650447999 true)

/-- The midnight that 2017 begins with. -/
def newYear : Temporal := .utc (.nearest 63650448000 false)

/-- A leap second may be a bound, but not beside the second that it follows. -/
example : Separate [.span lastMinute leapSecond, .span leapSecond newYear] ∧
    ¬ Separate [.span lastSecond leapSecond] := by decide

variable {zoned : Bool} {ps qs : List Period} {s t : Temporal}

theorem mem_timeBounds : t ∈ timeBounds ps ↔
    ∃ p ∈ ps, p.isDateTime = true ∧ (t = p.start ∨ t = p.stop) := by
  simp [timeBounds, and_assoc]

theorem Separate.mono (h : Separate qs) (some' : ∀ p ∈ ps, p ∈ qs) : Separate ps := by
  have bounds : ∀ t ∈ timeBounds ps, t ∈ timeBounds qs := fun t ht => by
    obtain ⟨p, hp, bound⟩ := mem_timeBounds.mp ht
    exact mem_timeBounds.mpr ⟨p, some' p hp, bound⟩
  exact fun s hs t ht => h s (bounds s hs) t (bounds t ht)

/-- Without leap seconds all seconds are separate. -/
theorem separate_of_plain (h : ∀ t ∈ timeBounds ps, (t.instantIn Zone.utc).leap = false) :
    Separate ps := fun s hs t ht same => by
  rw [s.rank_eq, t.rank_eq, h s hs, h t ht, same]

/-- Separate seconds are in the order of their places. -/
theorem Separate.second_lt_iff (h : Separate ps) (hs : s ∈ timeBounds ps) (ht : t ∈ timeBounds ps) :
    s.second < t.second ↔ s.rank < t.rank := by
  refine ⟨Temporal.rank_lt_of_second_lt, fun lt => ?_⟩
  have le := Temporal.second_le_of_rank_le (Int.le_of_lt lt)
  have differ : s.second ≠ t.second := fun e => by
    have := h s hs t ht e
    omega
  omega

namespace TimeScale

/-- The scale of the bounds of date-time periods on one clock. -/
def ofPeriods (onClock : ∀ p ∈ ps, p.isDateTime = true → p.OnClock zoned)
    (separate : Separate ps) : TimeScale :=
  have told : ∀ t ∈ timeBounds ps, t.OnClock zoned := fun t ht => by
    obtain ⟨p, hp, time, rfl | rfl⟩ := mem_timeBounds.mp ht
    · exact (onClock p hp time).start
    · exact (onClock p hp time).stop
  { tells := (· ∈ timeBounds ps)
    isDateTime := fun ht => (told _ ht).1
    before_iff := fun {a s t} ha hs ht => by
      have key (u : Temporal) (hu : u ∈ timeBounds ps) :
          (Comparator.toTheSecond a).key u = u.second :=
        Temporal.key_toTheSecond (told a ha) (told u hu)
      unfold Comparator.before
      rw [decide_eq_true_iff, key s hs, key t ht]
      exact separate.second_lt_iff hs ht }

end TimeScale

/-! ## 3. Periods on a scale -/

namespace Period

/-- A period between values of a scale, the second of which is not earlier. -/
structure OnScale (scale : TimeScale) (p : Period) : Prop where
  start : scale.tells p.start
  stop : scale.tells p.stop
  forward : p.comparator.before p.stop p.start = false

variable {scale : TimeScale} {p q : Period} {i : Civil}

theorem onScale_ofPeriods {onClock : ∀ p ∈ ps, p.isDateTime = true → p.OnClock zoned}
    {separate : Separate ps} (hp : p ∈ ps) (time : p.isDateTime = true) :
    p.OnScale (.ofPeriods onClock separate) where
  start := mem_timeBounds.mpr ⟨p, hp, time, .inl rfl⟩
  stop := mem_timeBounds.mpr ⟨p, hp, time, .inr rfl⟩
  forward := (onClock p hp time).forward

/-- Date-time periods on one clock have a scale when their bounds are separate seconds. -/
theorem exists_onScale (onClock : ∀ p ∈ ps, p.isDateTime = true → p.OnClock zoned)
    (separate : Separate ps) : ∃ scale, ∀ p ∈ ps, p.isDateTime = true → p.OnScale scale :=
  ⟨.ofPeriods onClock separate, fun _ hp time => onScale_ofPeriods hp time⟩

/-- On its scale a period compares the places of values, -/
theorem before_iff (hp : p.OnScale scale) (hs : scale.tells s) (ht : scale.tells t) :
    p.comparator.before s t = true ↔ s.rank < t.rank :=
  scale.before_iff hp.start hs ht

theorem after_iff (hp : p.OnScale scale) (hs : scale.tells s) (ht : scale.tells t) :
    p.comparator.after s t = true ↔ t.rank < s.rank :=
  before_iff hp ht hs

theorem before_eq_false_iff (hp : p.OnScale scale) (hs : scale.tells s) (ht : scale.tells t) :
    p.comparator.before s t = false ↔ t.rank ≤ s.rank := by
  rw [← Bool.not_eq_true, before_iff hp hs ht]
  exact Int.not_lt

theorem after_eq_false_iff (hp : p.OnScale scale) (hs : scale.tells s) (ht : scale.tells t) :
    p.comparator.after s t = false ↔ s.rank ≤ t.rank :=
  before_eq_false_iff hp ht hs

/-- and takes for equal what is in one place. -/
theorem equal_iff (hp : p.OnScale scale) (hs : scale.tells s) (ht : scale.tells t) :
    p.comparator.equal s t = true ↔ s.rank = t.rank := by
  have before := before_iff hp hs ht
  have after := after_iff hp hs ht
  unfold Comparator.before at before
  unfold Comparator.after at after
  unfold Comparator.equal
  rw [decide_eq_true_iff] at *
  omega

namespace OnScale

theorem isDateTime (h : p.OnScale scale) : p.isDateTime = true := scale.isDateTime h.start

theorem rank_le (h : p.OnScale scale) : p.start.rank ≤ p.stop.rank :=
  (before_eq_false_iff h h.stop h.start).mp h.forward

theorem covers_iff (h : p.OnScale scale) :
    p.Covers i ↔ p.start.rank ≤ i.rank ∧ i.rank < p.stop.rank :=
  and_iff_right h.isDateTime

/-- The span between two values of a scale. -/
theorem span (hs : scale.tells s) (ht : scale.tells t) (h : s.rank ≤ t.rank) :
    (Period.span s t).OnScale scale where
  start := hs
  stop := ht
  forward := Bool.eq_false_iff.mpr fun back => by
    have := (scale.before_iff hs ht hs).mp back
    omega

end OnScale

theorem covers_span (hs : scale.tells s) :
    (Period.span s t).Covers i ↔ s.rank ≤ i.rank ∧ i.rank < t.rank :=
  and_iff_right (scale.isDateTime hs)

/-! ## 4. Relations -/

theorem isEmpty_iff (hp : p.OnScale scale) : p.isEmpty = true ↔ p.start.rank = p.stop.rank := by
  unfold isEmpty
  rw [if_pos hp.isDateTime]
  exact equal_iff hp hp.start hp.stop

theorem contains_iff (hp : p.OnScale scale) (hq : q.OnScale scale) :
    p.contains q = true ↔ p.start.rank ≤ q.start.rank ∧ q.stop.rank ≤ p.stop.rank := by
  unfold contains
  simp only [Bool.and_eq_true, Bool.not_eq_true', after_eq_false_iff hp hp.start hq.start,
    before_eq_false_iff hp hp.stop hq.stop]

/-- Two periods intersect when they have the same bounds, or some instant in common, or when an empty
    one lies properly inside the other. -/
theorem intersects_iff (hp : p.OnScale scale) (hq : q.OnScale scale) :
    p.intersects q = true ↔ (p.start.rank = q.start.rank ∧ p.stop.rank = q.stop.rank) ∨
      (p.start.rank < q.stop.rank ∧ q.start.rank < p.stop.rank) := by
  unfold intersects
  simp only [Bool.or_eq_true, Bool.and_eq_true, equal_iff hp hp.start hq.start,
    equal_iff hp hp.stop hq.stop, before_iff hp hp.start hq.stop, before_iff hp hq.start hp.stop]

/-- On a scale it does not matter which period is asked. -/
theorem intersects_comm (hp : p.OnScale scale) (hq : q.OnScale scale) :
    p.intersects q = q.intersects p := by
  rw [Bool.eq_iff_iff, intersects_iff hp hq, intersects_iff hq hp]
  omega

/-- **Periods that overlap or touch are those between which no instant is left.** -/
theorem joins_iff (hp : p.OnScale scale) (hq : q.OnScale scale) :
    (p.intersects q || p.adjacent q) = true ↔
      p.start.rank ≤ q.stop.rank ∧ q.start.rank ≤ p.stop.rank := by
  have forward := hp.rank_le
  have forward' := hq.rank_le
  unfold adjacent
  simp only [Bool.or_eq_true, intersects_iff hp hq, equal_iff hp hp.stop hq.start,
    equal_iff hp hq.stop hp.start]
  omega

theorem start_cover (hp : p.OnScale scale) (hq : q.OnScale scale) :
    ((p.cover q).start = p.start ∨ (p.cover q).start = q.start) ∧
      (p.cover q).start.rank = min p.start.rank q.start.rank := by
  unfold cover span Comparator.earlier
  simp only [after_iff hp hp.start hq.start]
  split
  · exact ⟨.inr rfl, by omega⟩
  · exact ⟨.inl rfl, by omega⟩

theorem stop_cover (hp : p.OnScale scale) (hq : q.OnScale scale) :
    ((p.cover q).stop = p.stop ∨ (p.cover q).stop = q.stop) ∧
      (p.cover q).stop.rank = max p.stop.rank q.stop.rank := by
  unfold cover span Comparator.later
  simp only [before_iff hp hp.stop hq.stop]
  split
  · exact ⟨.inr rfl, by omega⟩
  · exact ⟨.inl rfl, by omega⟩

/-- **A cover is on the scale, and reaches from the earlier start to the later stop.** -/
theorem onScale_cover (hp : p.OnScale scale) (hq : q.OnScale scale) :
    (p.cover q).OnScale scale := by
  obtain ⟨start, first⟩ := start_cover hp hq
  obtain ⟨stop, last⟩ := stop_cover hp hq
  have forward := hp.rank_le
  have le : (p.cover q).start.rank ≤ (p.cover q).stop.rank := by omega
  have onStart : scale.tells (p.cover q).start := by
    rcases start with e | e
    · rw [e]
      exact hp.start
    · rw [e]
      exact hq.start
  have onStop : scale.tells (p.cover q).stop := by
    rcases stop with e | e
    · rw [e]
      exact hp.stop
    · rw [e]
      exact hq.stop
  exact OnScale.span onStart onStop le

end Period

end Almanac
