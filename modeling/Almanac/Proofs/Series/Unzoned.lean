import Almanac.Proofs.Rule.Midnight
import Almanac.Proofs.Rule.Stages
import Almanac.Proofs.Rule.Units
import Almanac.Proofs.Series.Sift

/-!
# Series on a seed without a zone

Without a zone a series lives in civil time. This file fixes

* **every value has one civil time behind it** (`Temporal.key_of_withCivil`): the key of the value
  is the stamp of that time, or its day when the seed is a date. So values rise with their civil
  times, except that several times of a day make one date (`Temporal.rises_of_stamp_lt`);
* increments are values themselves (`Rule.increment?`), and the candidates that a step of a walk
  meets are those of the increment it has come to (`Series.candidates_eq`);
* **candidates of a later increment come later** (`Series.rises_of_lt`), as long as no skip policy
  moves them out of the unit of their increment;
* where a walk sets out, nothing from the window is behind it (`Series.key_lt_of_passed`).
-/

namespace Almanac

/-! ## 1. Values and their civil times -/

namespace Temporal

variable {seed : Temporal} {policy : GapPolicy}

theorem unzoned_of_withCivil (hs : seed.zone? = none) {c : Civil} {t : Temporal}
    (h : seed.withCivil policy c = some t) : t.zone? = none :=
  (sameKind_of_withCivil h).2.trans hs

/-- Without a zone every civil time makes a value. -/
theorem withCivil_isSome (hs : seed.zone? = none) (c : Civil) :
    (seed.withCivil policy c).isSome := by
  cases seed with
  | date d => rfl
  | floating _ => rfl
  | utc _ => rfl
  | zoned z => cases hs

/-- **The key of a value is read off the civil time behind it.** -/
theorem key_of_withCivil (hs : seed.zone? = none) {c : Civil} {t : Temporal}
    (h : seed.withCivil policy c = some t) :
    (Comparator.forSeed seed).key t = if seed.isDateTime then c.stamp else c.date.day := by
  rw [Comparator.key_forSeed hs (unzoned_of_withCivil hs h)]
  cases seed with
  | date d =>
    cases h
    show (Civil.midnight c.date).date.day = c.date.day
    rw [Civil.date_midnight]
  | floating _ =>
    cases h
    rfl
  | utc _ =>
    cases h
    rfl
  | zoned z => cases hs

/-- **Values rise with their civil times**; on a seed that is a date they may also be the same. -/
theorem rises_of_stamp_lt (hs : seed.zone? = none) {c d : Civil} {a b : Temporal}
    (ha : seed.withCivil policy c = some a) (hb : seed.withCivil policy d = some b)
    (h : c.stamp < d.stamp) :
    (Comparator.forSeed seed).key a < (Comparator.forSeed seed).key b ∨ a = b := by
  rw [key_of_withCivil hs ha, key_of_withCivil hs hb]
  cases seed with
  | date _ =>
    cases ha
    cases hb
    rcases Int.lt_or_le c.date.day d.date.day with lt | ge
    · exact .inl lt
    · have same : c.date = d.date := Date.ext (by simp only [Civil.day_date] at ge ⊢; omega)
      exact .inr (by rw [same])
  | floating _ => exact .inl h
  | utc _ => exact .inl h
  | zoned z => cases hs

/-- In the frame of an unzoned seed a value is read as it is written, on a date without its
    clock. -/
theorem inFrameOf_of_unzoned {t : Temporal} (hs : seed.zone? = none) (ht : t.zone? = none) :
    t.inFrameOf seed = if seed.isDateTime then t.localTime else t.localTime.atMidnight := by
  cases seed with
  | date _ => rfl
  | floating _ => rfl
  | utc _ => exact instantIn_utc ht
  | zoned z => cases hs

end Temporal

/-! ## 2. Increments and their candidates -/

namespace Rule

/-- The start of an increment as a value of the seed's kind: the seed moved on by so many
    intervals. -/
def increment? (r : Rule) (seed : Temporal) (k : Nat) : Option Temporal :=
  (r.incrementStart? seed.localTime k).bind (seed.withCivil r.settings.gapPolicy)

theorem valueAt?_none (r : Rule) (root : Temporal) (c : Civil) :
    r.valueAt? root none c = root.withCivil r.settings.gapPolicy c := by
  cases root <;> rfl

end Rule

namespace Series

variable {s : Series}

theorem stepZone?_of_unzoned (hs : s.seed.zone? = none) : s.stepZone? = none := by
  unfold stepZone?
  rw [hs, ite_self]

theorem frame_of_unzoned (hs : s.seed.zone? = none) (t : Temporal) :
    s.frame t = t.inFrameOf s.seed := by
  unfold frame
  rw [stepZone?_of_unzoned hs]

theorem reading?_of_stepZone?_eq_none (h : s.stepZone? = none) (period : Civil) :
    s.reading? period = some period := by
  unfold reading?
  rw [h]

theorem candidates_of_stepZone?_eq_none (h : s.stepZone? = none) (period : Civil) :
    s.candidates period = s.rule.candidatesAt s.seed none period := by
  unfold candidates
  rw [reading?_of_stepZone?_eq_none h, h]
  rfl

theorem candidates_of_unzoned (hs : s.seed.zone? = none) (period : Civil) :
    s.candidates period = s.rule.candidatesAt s.seed none period :=
  candidates_of_stepZone?_eq_none (stepZone?_of_unzoned hs) period

/-- A series on an unzoned seed begins at the seed's own civil time. -/
theorem origin_of_unzoned (hs : s.seed.zone? = none) : s.origin = s.seed.localTime := by
  unfold origin
  rw [frame_of_unzoned hs, Temporal.inFrameOf_of_unzoned hs hs]
  cases s.seed with
  | date d =>
    show Civil.midnight (Civil.midnight d).date = Civil.midnight d
    rw [Civil.date_midnight]
  | floating _ => rfl
  | utc _ => rfl
  | zoned _ => rfl

/-- **A step of a walk meets the candidates of its increment.** -/
theorem candidates_eq (hs : s.seed.zone? = none) {c : Civil} {p : Temporal}
    (h : s.seed.withCivil s.rule.settings.gapPolicy c = some p) :
    s.rule.candidates s.seed p = s.candidates c := by
  rw [candidates_of_unzoned hs]
  unfold Rule.candidates
  cases hseed : s.seed with
  | date d =>
    rw [hseed] at h
    cases h
    show s.rule.candidatesAt (.date d) none (Civil.midnight (Civil.midnight c.date).date) = _
    rw [Civil.date_midnight]
    exact s.rule.candidatesAt_atMidnight d none c
  | floating _ =>
    rw [hseed] at h
    cases h
    rfl
  | utc _ =>
    rw [hseed] at h
    cases h
    rfl
  | zoned z =>
    rw [hseed] at hs
    cases hs

/-- The values that are candidates of some increment are those that some step meets. -/
theorem exists_increment_iff (hs : s.seed.zone? = none) {x : Temporal} :
    (∃ k p, s.rule.increment? s.seed k = some p ∧ x ∈ s.rule.candidates s.seed p) ↔
      ∃ k c, s.rule.incrementStart? s.origin k = some c ∧ x ∈ s.candidates c := by
  rw [origin_of_unzoned hs]
  constructor
  · rintro ⟨k, p, hp, hx⟩
    obtain ⟨c, hc, hp⟩ := Option.bind_eq_some_iff.mp hp
    exact ⟨k, c, hc, candidates_eq hs hp ▸ hx⟩
  · rintro ⟨k, c, hc, hx⟩
    obtain ⟨p, hp⟩ := Option.isSome_iff_exists.mp (Temporal.withCivil_isSome hs c)
    refine ⟨k, p, Option.bind_eq_some_iff.mpr ⟨c, hc, hp⟩, ?_⟩
    rw [candidates_eq hs hp]
    exact hx

/-- Behind a candidate is a civil time in the unit of its increment. -/
theorem exists_civil_of_mem_candidates (hs : s.seed.zone? = none) (hskip : s.rule.skip = .leaveOut)
    {period : Civil} {x : Temporal} (hx : x ∈ s.candidates period) :
    ∃ c, s.rule.unitIndex c = s.rule.unitIndex period ∧
      s.seed.withCivil s.rule.settings.gapPolicy c = some x := by
  rw [candidates_of_unzoned hs] at hx
  obtain ⟨c, hc, hx⟩ := List.mem_filterMap.mp (mem_of_mem_ascending hx)
  rw [Rule.valueAt?_none] at hx
  exact ⟨c, Rule.unitIndex_of_mem_civilCandidates hskip hc, hx⟩

/-! ## 3. Order across increments -/

/-- **Candidates of a later increment come later**, or are the same. -/
theorem rises_of_lt (hs : s.seed.zone? = none) (hskip : s.rule.skip = .leaveOut) {i j : Nat}
    {c d : Civil} (h : i < j) (hc : s.rule.incrementStart? s.origin i = some c)
    (hd : s.rule.incrementStart? s.origin j = some d) {a b : Temporal}
    (ha : a ∈ s.candidates c) (hb : b ∈ s.candidates d) : s.key a < s.key b ∨ a = b := by
  obtain ⟨ca, unit, ha⟩ := exists_civil_of_mem_candidates hs hskip ha
  obtain ⟨cb, unit', hb⟩ := exists_civil_of_mem_candidates hs hskip hb
  have units := Rule.unitIndex_lt_of_lt h hc hd
  rw [← unit, ← unit'] at units
  exact Temporal.rises_of_stamp_lt hs ha hb (Rule.stamp_lt_of_unitIndex_lt units)

theorem increment_setOut_of_open (hstart : s.start = none) : s.setOut.increment = 0 := by
  unfold setOut
  rw [hstart]

theorem increment_setOut_of_start {start : Temporal} (hstart : s.start = some start)
    (hcount : s.rule.parts.count? = none) :
    s.setOut.increment = s.rule.incrementsBefore s.origin (s.frame start) := by
  unfold setOut
  rw [hstart, hcount]

/-- When a walk sets out behind increments, the one that it begins with starts before the window. -/
theorem exists_first_lt_of_passed (hcount : s.rule.parts.count? = none) {start : Temporal}
    (hstart : s.start = some start) {j : Nat} (h : j < s.setOut.increment) :
    ∃ first, s.rule.incrementStart? s.origin s.setOut.increment = some first ∧
      first < s.frame start := by
  rw [increment_setOut_of_start hstart hcount] at h ⊢
  have ahead : s.origin < s.frame start := by
    refine Civil.lt_iff_rank.mpr (Int.not_le.mp fun le => ?_)
    unfold Rule.incrementsBefore at h
    rw [if_pos (Civil.le_iff_rank.mpr le)] at h
    cases h
  exact (Rule.incrementsBefore_spec ahead).1

theorem exists_first_of_passed (hcount : s.rule.parts.count? = none) {start : Temporal}
    (hstart : s.start = some start) {j : Nat} (h : j < s.setOut.increment) :
    ∃ first, s.rule.incrementStart? s.origin s.setOut.increment = some first ∧
      first.stamp ≤ (s.frame start).stamp := by
  obtain ⟨first, hfirst, lt⟩ := exists_first_lt_of_passed hcount hstart h
  exact ⟨first, hfirst, Civil.stamp_le_of_lt lt⟩

/-- **What a walk has passed when it sets out lies before the civil time that it sets out for**: the
    increment that it begins with starts before that time, and the ones before lie in earlier
    units. -/
theorem exists_civil_of_passed (hs : s.seed.zone? = none) (hskip : s.rule.skip = .leaveOut)
    (hcount : s.rule.parts.count? = none) {start : Temporal} (hstart : s.start = some start)
    {j : Nat} {c : Civil} (h : j < s.setOut.increment)
    (hc : s.rule.incrementStart? s.origin j = some c) {x : Temporal} (hx : x ∈ s.candidates c) :
    ∃ cx, s.seed.withCivil s.rule.settings.gapPolicy cx = some x ∧
      cx.stamp < (s.frame start).stamp := by
  obtain ⟨first, hfirst, reach⟩ := exists_first_of_passed hcount hstart h
  obtain ⟨cx, unit, hx⟩ := exists_civil_of_mem_candidates hs hskip hx
  have units := Rule.unitIndex_lt_of_lt h hc hfirst
  rw [← unit] at units
  have before := Rule.stamp_lt_of_unitIndex_lt units
  exact ⟨cx, hx, by omega⟩

/-- **What a walk has passed when it sets out lies before the window.** -/
theorem key_lt_of_passed (hs : s.seed.zone? = none) (hskip : s.rule.skip = .leaveOut)
    (hcount : s.rule.parts.count? = none) {start : Temporal} (hstart : s.start = some start)
    (hz : start.zone? = none) {j : Nat} {c : Civil} (h : j < s.setOut.increment)
    (hc : s.rule.incrementStart? s.origin j = some c) {x : Temporal} (hx : x ∈ s.candidates c) :
    s.key x < s.key start := by
  obtain ⟨cx, hx, before⟩ := exists_civil_of_passed hs hskip hcount hstart h hc hx
  rw [frame_of_unzoned hs, Temporal.inFrameOf_of_unzoned hs hz] at before
  unfold key comparator
  rw [Temporal.key_of_withCivil hs hx, Comparator.key_forSeed hs hz]
  split at before
  · rename_i time
    rw [if_pos time, if_pos time]
    exact before
  · rename_i date
    rw [if_neg date, if_neg date]
    -- midnight is the first second of its day, so what is earlier lies on an earlier day
    show cx.stamp / 86400 < start.localTime.date.day
    rw [Civil.stamp_atMidnight] at before
    omega

end Series

end Almanac
