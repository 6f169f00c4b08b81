import Almanac.Proofs.Zone.Readings

/-!
# Civil times that clocks show once

A civil time that lies neither in a gap of a zone nor in a repeated hour has one reading
(`Zone.Once`). This file fixes, for zones whose changes are more than two days apart and shift
clocks by a day at most,

* that soon after a change its offset is still in force (`Zone.offsetFrom_of_near`), and that clocks
  which have gone back show the times in between twice (`Zone.readings_of_back`);
* so **among civil times that clocks show once, instants have the order of what clocks show**
  (`Zone.stamp_le_iff_of_once`), however many changes lie between them.
-/

namespace Almanac.Zone

variable {zone : Zone} {since : Option Int} {offset a b : Int} {ts : List Transition}

/-! ## 1. Clocks that have gone back -/

/-- Within two days of a change no further change is due. -/
theorem offsetFrom_of_near {start stamp : Int} (h : SpacedFrom (some start) offset ts)
    (near : stamp ≤ start + 172800) : offsetFrom offset ts stamp = offset := by
  cases ts with
  | nil => rfl
  | cons t rest =>
    have apart := h.1 start rfl
    exact if_pos (by omega)

/-- The offset drifts by half of the time that has passed at most. -/
theorem drift_offsetFrom {start stamp : Int} (h : SpacedFrom (some start) offset ts)
    (le : start ≤ stamp) : 2 * (offsetFrom offset ts stamp - offset).natAbs ≤ stamp - start := by
  have mem : stamp ∈ readingsFrom (some start) offset ts (stamp + offsetFrom offset ts stamp) :=
    (mem_readingsFrom_iff h).mpr ⟨fun s hs => by cases hs; exact le, rfl⟩
  have drift := drift_of_mem_readingsFrom h mem
  omega

/-- **Clocks that have gone back show times twice.** When they show no more at `b` than at `a`
    before it, the offset has fallen in between, by a day at most; what they show at `a` they show so
    much later again, and what they show at `b` they have shown so much earlier. -/
theorem readings_of_back (h : SpacedFrom since offset ts) (lt : a < b)
    (back : b + offsetFrom offset ts b ≤ a + offsetFrom offset ts a) :
    ∃ fold, 0 < fold ∧ fold ≤ 86400 ∧ offsetFrom offset ts a = offsetFrom offset ts b + fold ∧
      a + fold ∈ readingsFrom since offset ts (a + offsetFrom offset ts a) ∧
      b - fold ∈ readingsFrom since offset ts (b + offsetFrom offset ts b) := by
  induction ts generalizing since offset with
  | nil =>
    have : b + offset ≤ a + offset := back
    omega
  | cons t rest ih =>
    obtain ⟨apart, shift, ahead⟩ := h
    simp only [mem_readingsFrom_cons]
    unfold offsetFrom at back ⊢
    by_cases first : a < t.instant
    · rw [if_pos first] at back ⊢
      by_cases both : b < t.instant
      · rw [if_pos both] at back
        omega
      · -- one change lies between, for two are too far apart to put clocks back behind `a`
        rw [if_neg both] at back ⊢
        have drift := drift_offsetFrom ahead (by omega : t.instant ≤ b)
        have soon : offsetFrom t.offset rest b = t.offset := offsetFrom_of_near ahead (by omega)
        rw [soon] at back ⊢
        have later : offsetFrom t.offset rest (a + (offset - t.offset)) = t.offset :=
          offsetFrom_of_near ahead (by omega)
        refine ⟨offset - t.offset, by omega, by omega, by omega, .inr ?_, .inl ⟨fun s hs => ?_, by omega,
          by omega⟩⟩
        · refine (mem_readingsFrom_iff ahead).mpr ⟨fun s hs => ?_, by rw [later]; omega⟩
          cases hs
          omega
        · have := apart s hs
          omega
    · have both : ¬ b < t.instant := by omega
      rw [if_neg first, if_neg both] at back ⊢
      obtain ⟨fold, positive, short, fallen, again, before⟩ := ih ahead back
      exact ⟨fold, positive, short, fallen, .inr again, .inr before⟩

/-! ## 2. Times that are shown once -/

/-- Clocks of the zone show a civil time at one instant: it lies neither in a gap nor in a repeated
    hour. -/
def Once (zone : Zone) (c : Civil) : Prop := (zone.readings c).length = 1

instance (zone : Zone) (c : Civil) : Decidable (zone.Once c) :=
  inferInstanceAs (Decidable (_ = _))

variable {c d i j : Civil}

theorem Once.exists_readings (h : zone.Once c) : ∃ i, zone.readings c = [i] :=
  List.length_eq_one_iff.mp h

/-- The one instant is the one that the time is bound to. -/
theorem settle_of_readings (h : zone.readings c = [i]) : zone.settle c = i := by
  unfold settle earliest?
  rw [h]
  rfl

/-- At the one instant clocks show the time. -/
theorem Spaced.shown?_of_readings (h : zone.Spaced) (hc : zone.readings c = [i]) :
    zone.shown? i = some c := by
  refine (h.exact.mem_readings_iff c i).mp ?_
  rw [hc]
  exact List.mem_singleton_self i

/-- Bound to the zone, the time stays what clocks show. -/
theorem Spaced.localTime_settle (h : zone.Spaced) (hc : zone.Once c) :
    zone.localTime (zone.settle c) = c := by
  obtain ⟨i, hi⟩ := hc.exists_readings
  rw [settle_of_readings hi]
  exact localTime_of_shown? (h.shown?_of_readings hi)

/-- A stamp at which a zone's changes show a time is a reading, if it is one of the calendar. -/
theorem eq_of_mem_readingsFrom (hc : zone.readings c = [i]) {stamp : Int}
    (mem : stamp ∈ readingsFrom none zone.initial zone.transitions c.stamp)
    (low : firstStamp ≤ stamp) (high : stamp ≤ lastStamp) : stamp = i.stamp := by
  have reading : ⟨stamp, c.leap, low, high⟩ ∈ zone.readings c :=
    List.mem_filterMap.mpr ⟨stamp, mem, dif_pos ⟨low, high⟩⟩
  rw [hc] at reading
  exact congrArg Civil.stamp (List.mem_singleton.mp reading)

/-- What is shown once and earlier is earlier on the clocks. -/
theorem Spaced.stamp_lt (h : zone.Spaced) (hc : zone.readings c = [i]) (hd : zone.readings d = [j])
    (lt : i.stamp < j.stamp) : c.stamp < d.stamp := by
  have shows := (shown?_eq_some_iff.mp (h.shown?_of_readings hc)).1
  have shows' := (shown?_eq_some_iff.mp (h.shown?_of_readings hd)).1
  refine Int.not_le.mp fun back => ?_
  rw [shows, shows'] at back
  obtain ⟨fold, positive, short, -, again, before⟩ := readings_of_back h lt back
  rw [show i.stamp + offsetFrom zone.initial zone.transitions i.stamp = c.stamp from shows.symm]
    at again
  rw [show j.stamp + offsetFrom zone.initial zone.transitions j.stamp = d.stamp from shows'.symm]
    at before
  have low := i.first_le
  have high := j.le_last
  -- the calendar may end within a day on one side, but not on both
  have wide : firstStamp + 172800 ≤ lastStamp := by decide
  by_cases room : i.stamp + fold ≤ lastStamp
  · have := eq_of_mem_readingsFrom hc again (by omega) room
    omega
  · have := eq_of_mem_readingsFrom hd before (by omega) (by omega)
    omega

/-- **Among civil times that are shown once, instants have the order of what clocks show.** -/
theorem stamp_le_iff_of_once (h : zone.Spaced) (hc : zone.readings c = [i])
    (hd : zone.readings d = [j]) : i.stamp ≤ j.stamp ↔ c.stamp ≤ d.stamp := by
  have shows := (shown?_eq_some_iff.mp (h.shown?_of_readings hc)).1
  have shows' := (shown?_eq_some_iff.mp (h.shown?_of_readings hd)).1
  rcases Int.lt_trichotomy i.stamp j.stamp with lt | eq | gt
  · have := h.stamp_lt hc hd lt
    omega
  · unfold offsetAt at shows shows'
    rw [eq] at shows
    omega
  · have := h.stamp_lt hd hc gt
    omega

end Almanac.Zone
