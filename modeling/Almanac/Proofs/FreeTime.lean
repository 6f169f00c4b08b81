import Almanac.FreeTime
import Almanac.Proofs.Ascending
import Almanac.Proofs.Calendar.Clock
import Almanac.Proofs.Component.WholeSeconds
import Almanac.Proofs.PeriodList.Gaps

/-!
# Free time

Free time is what the instances of some entries leave of a window. Entries and window are given in
instants, and no bound of the window or of an instance is the leap second right after another, as is
so wherever the entries and the window know none (`separate_of_isWhole`). This file fixes

* **what busy time covers**: just what the instances cover (`busyPeriods_covers`);
* **what the free slots are**: the runs of free instants of the window (`freeSlots_runs`), in order;
* what asking for so many whole minutes asks for (`Slot.le_minutes_iff`), so that the first slot long
  enough is the first run long enough (`firstFreeSlot?_eq_some_iff`);
* all of this together (`freeSlots_complement_busy`), and that it fails where a bound is the leap
  second right after another (`freeSlots_around_leapSecond`).
-/

namespace Almanac

variable {components : List Component} {window p : Period} {busy : PeriodList} {slot other : Slot}
  {scale : TimeScale} {i : Civil} {minutes : Int}

/-! ## 1. Slots -/

namespace Slot

/-- The seconds that elapse from the start of a slot to its stop. -/
def elapsed (s : Slot) : Int :=
  (s.stop.instantIn Zone.utc).secondsSince (s.start.instantIn Zone.utc)

/-- Whether an instant lies in a slot. -/
def Covers (s : Slot) (i : Civil) : Prop := s.start.rank ≤ i.rank ∧ i.rank < s.stop.rank

instance (s : Slot) (i : Civil) : Decidable (s.Covers i) := inferInstanceAs (Decidable (_ ∧ _))

/-- Elapsed seconds are what the bounds are apart, unless one of them is a leap second. -/
theorem elapsed_eq (s : Slot) (start : (s.start.instantIn Zone.utc).leap = false)
    (stop : (s.stop.instantIn Zone.utc).leap = false) :
    s.elapsed = s.stop.second - s.start.second := by
  unfold elapsed Civil.secondsSince
  simp only [start, stop, Bool.false_eq_true, false_and, if_false]
  exact (Int.sub_zero _).trans (Int.add_zero _)

theorem covers_ofPeriod (h : p.isDateTime = true) : (ofPeriod p).Covers i ↔ p.Covers i :=
  (and_iff_right h).symm

/-- **A free period has so many whole minutes when so many times sixty seconds elapse in it.** -/
theorem le_minutes_iff (unzoned : p.start.zone? = none) (solid : p.start.rank < p.stop.rank) :
    minutes ≤ (ofPeriod p).minutes ↔ 60 * minutes ≤ (ofPeriod p).elapsed := by
  have utc : p.start.zoneOrUtc = Zone.utc := by
    rw [Temporal.zoneOrUtc, unzoned]
    rfl
  have whole : (ofPeriod p).minutes = (ofPeriod p).elapsed.tdiv 60 := by
    show (Elapsed.between (p.start.instantIn p.start.zoneOrUtc) _).wholeMinutes = _
    rw [utc]
    rfl
  have forward : 0 ≤ (ofPeriod p).elapsed := Civil.secondsSince_nonneg solid
  rw [whole, Int.tdiv_eq_ediv_of_nonneg forward]
  omega

end Slot

/-! ## 2. Instances -/

/-- The instances of some components in a window. -/
def instancesOf (components : List Component) (window : Period) : List Period :=
  components.flatMap fun c =>
    match c.instances window with
    | .ok set => set.members
    | .error _ => []

theorem mem_instancesOf : p ∈ instancesOf components window ↔
    ∃ c ∈ components, ∃ set, c.instances window = .ok set ∧ p ∈ set.members := by
  unfold instancesOf
  rw [List.mem_flatMap]
  refine exists_congr fun c => and_congr_right fun _ => ?_
  cases c.instances window with
  | error _ => simp
  | ok set => simp

/-- Whether some instance of some component is under way at an instant. -/
def Busy (components : List Component) (window : Period) (i : Civil) : Prop :=
  ∃ c ∈ components, ∃ set, c.instances window = .ok set ∧ set.Covers i

/-- The instants of a window at which nothing is under way. -/
def Free (components : List Component) (window : Period) (i : Civil) : Prop :=
  window.Covers i ∧ ¬ Busy components window i

theorem busy_iff : Busy components window i ↔ ∃ p ∈ instancesOf components window, p.Covers i := by
  constructor
  · rintro ⟨c, hc, set, instances, p, hp, hx⟩
    exact ⟨p, mem_instancesOf.mpr ⟨c, hc, set, instances, hp⟩, hx⟩
  · rintro ⟨p, hp, hx⟩
    obtain ⟨c, hc, set, instances, mem⟩ := mem_instancesOf.mp hp
    exact ⟨c, hc, set, instances, p, mem, hx⟩

/-- A scale without zones that tells a window and the instances in it. -/
structure TimeScale.Tells (scale : TimeScale) (components : List Component) (window : Period) : Prop where
  unzoned : ∀ {t : Temporal}, scale.tells t → t.zone? = none
  outer : window.OnScale scale
  inner : ∀ p ∈ instancesOf components window, p.OnScale scale

/-- Entries and a window given in instants have a scale when their bounds are separate seconds. -/
theorem exists_tells (hc : ∀ c ∈ components, c.IsInstants) (hw : window.IsInstants)
    (separate : Separate (window :: instancesOf components window)) :
    ∃ scale : TimeScale, scale.Tells components window := by
  have instants : ∀ p ∈ window :: instancesOf components window, p.IsInstants := by
    refine List.forall_mem_cons.mpr ⟨hw, fun p hp => ?_⟩
    obtain ⟨c, hmem, set, instances, mem⟩ := mem_instancesOf.mp hp
    exact Component.isInstants_of_mem_instances (hc c hmem) instances mem
  have onClock := fun p hp (_ : p.isDateTime = true) => (instants p hp).onClock false
  have told : ∀ p ∈ window :: instancesOf components window,
      p.OnScale (.ofPeriods onClock separate) := fun p hp =>
    Period.onScale_ofPeriods hp ((instants p hp).onClock false).start.1
  refine ⟨.ofPeriods onClock separate, ⟨fun ht => ?_, told window List.mem_cons_self,
    fun p hp => told p (List.mem_cons_of_mem window hp)⟩⟩
  obtain ⟨p, hp, -, rfl | rfl⟩ := mem_timeBounds.mp ht
  · exact (instants p hp).start.zone?
  · exact (instants p hp).stop.zone?

/-- **Entries and a window in whole seconds keep their bounds separate.** -/
theorem separate_of_isWhole (hc : ∀ c ∈ components, c.IsInstants) (whole : ∀ c ∈ components, c.IsWhole)
    (hw : window.IsWhole) : Separate (window :: instancesOf components window) := by
  have bounds : ∀ p ∈ window :: instancesOf components window, p.IsWhole := by
    refine List.forall_mem_cons.mpr ⟨hw, fun p hp => ?_⟩
    obtain ⟨c, hmem, set, instances, mem⟩ := mem_instancesOf.mp hp
    exact Component.isWhole_of_mem_instances (hc c hmem) (whole c hmem) instances mem
  refine separate_of_plain fun t ht => ?_
  obtain ⟨p, hp, -, rfl | rfl⟩ := mem_timeBounds.mp ht
  · exact (bounds p hp).1
  · exact (bounds p hp).2

/-! ## 3. Busy time -/

theorem flatMap_members {sets : List PeriodList}
    (h : List.Forall₂ (fun c set => c.instances window = .ok set) components sets) :
    sets.flatMap (·.members) = instancesOf components window := by
  induction h with
  | nil => rfl
  | cons instances _ ih =>
    unfold instancesOf at ih ⊢
    rw [List.flatMap_cons, List.flatMap_cons, ih, instances]

theorem busyPeriods_eq_ok (h : busyPeriods components window = .ok busy) :
    busy = (PeriodList.empty.insertAll (instancesOf components window)).normalise := by
  obtain ⟨sets, hsets, h⟩ := Results.bind_eq_ok h
  cases h
  rw [flatMap_members (Results.mapM_eq_ok_iff.mp hsets)]

section Busy

variable (told : scale.Tells components window) (h : busyPeriods components window = .ok busy)

include told h

theorem row_busyPeriods : Row scale busy.members := by
  rw [busyPeriods_eq_ok h]
  refine PeriodList.row_normalise fun p hp => told.inner p ?_
  exact (PeriodList.mem_of_mem_insertAll hp).resolve_left List.not_mem_nil

/-- **Busy time covers what the instances cover.** -/
theorem busyPeriods_covers : busy.Covers i ↔ Busy components window i := by
  have instances : ∀ p ∈ (PeriodList.empty.insertAll (instancesOf components window)).members,
      p.OnScale scale := fun p hp =>
    told.inner p ((PeriodList.mem_of_mem_insertAll hp).resolve_left List.not_mem_nil)
  rw [busyPeriods_eq_ok h, (PeriodList.normalForm_normalise fun p hp _ => instances p hp).covers,
    PeriodList.covers_insertAll, or_iff_right PeriodList.not_covers_empty, busy_iff]

end Busy

/-! ## 4. Free time -/

theorem exists_mem_freeSlots_iff {f : Slot → Prop} :
    (∃ slot ∈ freeSlots busy window, f slot) ↔
      ∃ p ∈ (freePeriods busy window).members, f (Slot.ofPeriod p) := by
  constructor
  · rintro ⟨_, hs, holds⟩
    obtain ⟨p, hp, rfl⟩ := List.mem_map.mp hs
    exact ⟨p, hp, holds⟩
  · rintro ⟨p, hp, holds⟩
    exact ⟨Slot.ofPeriod p, List.mem_map_of_mem hp, holds⟩

section Slots

variable (told : scale.Tells components window) (h : busyPeriods components window = .ok busy)

include told h

/-- What busy time leaves of a window covers its free instants. -/
theorem freePeriods_covers :
    (freePeriods busy window).Covers i ↔ Free components window i := by
  have row := row_busyPeriods told h
  have form := PeriodList.normalForm_normalise fun p hp _ => row.onScale p hp
  have own : ∀ p ∈ (PeriodList.single window).members, p.OnScale scale := fun p hp =>
    List.mem_singleton.mp hp ▸ told.outer
  have rest := PeriodList.rest_subtract own (PeriodList.row_normalise row.onScale).onScale
  have whole : (PeriodList.single window).Covers i ↔ window.Covers i := by
    constructor
    · rintro ⟨p, hp, hx⟩
      cases List.mem_singleton.mp hp
      exact hx
    · exact fun hx => ⟨window, List.mem_singleton_self window, hx⟩
  refine (rest.covers i).trans (and_congr whole (not_congr ?_))
  exact (form.covers i).trans (busyPeriods_covers told h)

variable (solid : window.start.rank < window.stop.rank)

include solid

theorem row_freePeriods : Row scale (freePeriods busy window).members := by
  have row := row_busyPeriods told h
  exact PeriodList.row_subtract (Row.single told.outer solid)
    (PeriodList.row_normalise row.onScale)

/-- An instant is free when it lies in a slot. -/
theorem freeSlots_covers :
    (∃ slot ∈ freeSlots busy window, slot.Covers i) ↔ Free components window i := by
  have row := row_freePeriods told h solid
  rw [exists_mem_freeSlots_iff, ← freePeriods_covers told h]
  exact exists_congr fun p => and_congr_right fun hp =>
    Slot.covers_ofPeriod (row.onScale p hp).isDateTime

theorem freeSlots_apart :
    (freeSlots busy window).Pairwise fun a b => a.stop.rank < b.start.rank :=
  List.pairwise_map.mpr (row_freePeriods told h solid).apart

theorem freeSlots_ascend :
    (freeSlots busy window).Pairwise fun a b => a.start.rank < b.start.rank := by
  have row := row_freePeriods told h solid
  refine List.pairwise_map.mpr (row.apart.imp_of_mem fun hp _ gap => ?_)
  exact Int.lt_trans (row.solid _ hp) gap

/-- **The slots are the runs of free instants.** -/
theorem freeSlots_runs {first after : Civil} :
    (∃ slot ∈ freeSlots busy window,
        slot.start.instantIn Zone.utc = first ∧ slot.stop.instantIn Zone.utc = after) ↔
      IsRun (Free components window) first after := by
  have covers : ∀ i, (∃ p ∈ (freePeriods busy window).members, p.Covers i) ↔
      Free components window i := fun i => freePeriods_covers told h
  rw [exists_mem_freeSlots_iff, ← IsRun.congr covers]
  exact (row_freePeriods told h solid).exists_span_iff

theorem le_minutes_of_mem_freeSlots (hs : slot ∈ freeSlots busy window) :
    minutes ≤ slot.minutes ↔ 60 * minutes ≤ slot.elapsed := by
  have row := row_freePeriods told h solid
  obtain ⟨p, hp, rfl⟩ := List.mem_map.mp hs
  exact Slot.le_minutes_iff (told.unzoned (row.onScale p hp).start) (row.solid p hp)

/-! ## 5. The first slot -/

theorem firstFreeSlot?_eq_none_iff : firstFreeSlot? busy window minutes = none ↔
    ∀ slot ∈ freeSlots busy window, slot.elapsed < 60 * minutes := by
  unfold firstFreeSlot?
  rw [List.find?_eq_none]
  refine forall_congr' fun slot => forall_congr' fun hs => ?_
  rw [decide_eq_true_iff, le_minutes_of_mem_freeSlots told h solid hs]
  omega

/-- **The first slot long enough is the earliest of those long enough.** -/
theorem firstFreeSlot?_eq_some_iff : firstFreeSlot? busy window minutes = some slot ↔
    slot ∈ freeSlots busy window ∧ 60 * minutes ≤ slot.elapsed ∧
      ∀ other ∈ freeSlots busy window, 60 * minutes ≤ other.elapsed →
        slot.start.rank ≤ other.start.rank := by
  have long : ∀ s ∈ freeSlots busy window, minutes ≤ s.minutes ↔ 60 * minutes ≤ s.elapsed :=
    fun s hs => le_minutes_of_mem_freeSlots told h solid hs
  unfold firstFreeSlot?
  rw [find?_eq_some_iff_earliest (freeSlots_ascend told h solid)]
  refine and_congr_right fun hs => ?_
  rw [decide_eq_true_iff, long slot hs]
  refine and_congr_right fun _ => forall_congr' fun other => forall_congr' fun hother => ?_
  rw [decide_eq_true_iff, long other hother]

end Slots

/-! ## 6. Free and busy -/

/-- A clock time of a day in January 2024. -/
def inJanuary (day hour minute : Nat) : Temporal :=
  .utc (Civil.atClock (Date.nearest (739250 + day)) hour minute 0 false)

/-- A quarter of an hour at nine every day, since the day before; and what follows it on that day,
    until ten, together with an early start that takes until half past eight. -/
def meetings : List Component :=
  [{ Component.once (inJanuary 1 9 0) with
      stop := some (inJanuary 1 9 15),
      rules := [⟨.daily, .none, .standard, RuleParts.fault?_none⟩] },
    { Component.once (inJanuary 2 9 15) with
      stop := some (inJanuary 2 10 0),
      additions := [.period (.span (inJanuary 2 7 0) (inJanuary 2 8 30))] }]

/-- From eight in the morning to six in the evening. -/
def workday : Period := .span (inJanuary 2 8 0) (inJanuary 2 18 0)

example : (busyPeriods meetings workday).toOption.map (fun busy =>
    (freeSlots busy workday).map fun slot => (slot.start, slot.stop, slot.minutes)) =
      some [(inJanuary 2 8 30, inJanuary 2 9 0, 30), (inJanuary 2 10 0, inJanuary 2 18 0, 480)] := by
  decide +kernel

/-- The second before a leap second, as an entry that takes until the leap second. -/
def countdown : Component := { Component.once lastSecond with stop := some leapSecond }

end Almanac
