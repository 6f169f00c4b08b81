import Almanac.Proofs.Zone.Once

/-!
# Binding civil times in their order

A civil time is bound to a zone at the first instant that shows it; in a gap it is bound past the gap, as
if the offset before had stayed. For the zones with names (`Zone.Regular`), and as far as the ends of the
calendar do not matter for all with changes so far apart (`Zone.Orderly`), this file fixes

* what clocks show, whether the calendar reaches that far or not (`Zone.wall`): they may go back, but
  never by more than they have gone on in the day (`Zone.Orderly.wall_lt`);
* the first reading comes first: **before it clocks have shown earlier times only**
  (`Zone.Regular.wall_lt_of_earliest?`);
* what a gap looks like (`Zone.Gap`), that every time without a reading lies in one
  (`Zone.Orderly.exists_gap`), and that it is bound past it (`Zone.Gap.le_stampAfter`);
* so **a time is bound no earlier than any instant up to which clocks have shown earlier times only**
  (`Zone.Regular.le_settle`). **Of two times the earlier one is bound first**, but for one in a gap
  that a time after the gap follows too closely (`Zone.Regular.settle_le_settle`).
-/

namespace Almanac.Zone

variable {zone : Zone} {since : Option Int} {offset shown x y : Int} {ts : List Transition}
  {c d i : Civil}

/-! ## 1. Clocks -/

/-- What the zone's clocks show at a stamp, whether it is one of the calendar or not. -/
def wall (zone : Zone) (x : Int) : Int := x + offsetFrom zone.initial zone.transitions x

theorem wall_eq (i : Civil) : zone.wall i.stamp = i.stamp + zone.offsetAt i := rfl

/-- A zone as there is one for every name: its changes are more than two days apart and shift clocks
    by a day at most, clocks are never more than a day ahead or behind, and all changes come within
    some thirty thousand years from the year 0, far from the ends of the calendar. -/
structure Regular (zone : Zone) : Prop where
  spaced : zone.Spaced
  near : ∀ x, (offsetFrom zone.initial zone.transitions x).natAbs ≤ 86400
  recent : ∀ t ∈ zone.transitions, t.instant.natAbs ≤ 1000000000000

/-- A zone of which only this much is known, wherever its changes lie: they are more than two days apart
    and shift clocks by a day at most, and clocks are never more than a day ahead or behind. -/
structure Orderly (zone : Zone) : Prop where
  spaced : zone.Spaced
  near : ∀ x, (offsetFrom zone.initial zone.transitions x).natAbs ≤ 86400

theorem Regular.orderly (h : zone.Regular) : zone.Orderly := ⟨h.spaced, h.near⟩

/-- **Every zone with a name is regular.** -/
theorem regular_of_named? {name : String} (h : named? name = some zone) : zone.Regular := by
  obtain ⟨known, found, rfl⟩ := Option.map_eq_some_iff.mp h
  have mem := List.mem_of_find?_eq_some found
  have offsets : ∀ zone ∈ ZoneTable.zones, ∀ o ∈ zone.initial ::
      zone.transitions.map Transition.offset, o.natAbs ≤ 86400 := by decide +kernel
  have recent : ∀ zone ∈ ZoneTable.zones, ∀ t ∈ zone.transitions,
      t.instant.natAbs ≤ 1000000000000 := by decide +kernel
  exact ⟨spaced_of_mem_zones known mem,
    fun x => offsets known mem _ (offsetFrom_mem known.initial known.transitions x),
    recent known mem⟩

/-! ## 2. Readings in their order -/

/-- **The readings of a time come in their order.** -/
theorem pairwise_readingsFrom (h : SpacedFrom since offset ts) :
    (readingsFrom since offset ts shown).Pairwise (· < ·) := by
  induction ts generalizing since offset with
  | nil =>
    unfold readingsFrom
    split
    · exact List.pairwise_singleton _ _
    · exact .nil
  | cons t rest ih =>
    obtain ⟨-, -, ahead⟩ := h
    simp only [readingsFrom]
    split
    · rename_i here
      refine List.pairwise_cons.mpr ⟨fun later mem => ?_, ih ahead⟩
      have from' := ((mem_readingsFrom_iff ahead).mp mem).1 t.instant rfl
      omega
    · exact ih ahead

/-- An instant of the calendar at which clocks show a time is a reading of it. -/
theorem Spaced.mem_readings (h : zone.Spaced) (shows : zone.wall x = c.stamp)
    (low : firstStamp ≤ x) (high : x ≤ lastStamp) : ⟨x, c.leap, low, high⟩ ∈ zone.readings c :=
  (h.exact.mem_readings_iff c _).mpr (shown?_eq_some_iff.mpr ⟨shows.symm, rfl⟩)

/-- The first instant that shows a time is no later than any other. -/
theorem Spaced.exists_earliest? (h : zone.Spaced) (shows : zone.wall x = c.stamp)
    (low : firstStamp ≤ x) (high : x ≤ lastStamp) : ∃ i, zone.earliest? c = some i ∧ i.stamp ≤ x := by
  have order : (zone.readings c).Pairwise fun a b => a.stamp < b.stamp := by
    refine List.Pairwise.filterMap _ ?_ (pairwise_readingsFrom h)
    intro a b lt i hi j hj
    rw [(Civil.ofStamp?_eq_some_iff.mp hi).1, (Civil.ofStamp?_eq_some_iff.mp hj).1]
    exact lt
  have reading := h.mem_readings shows low high
  unfold earliest?
  cases found : zone.readings c with
  | nil =>
    rw [found] at reading
    cases reading
  | cons i rest =>
    rw [found] at order reading
    refine ⟨i, rfl, ?_⟩
    rcases List.mem_cons.mp reading with same | later
    · exact Int.le_of_eq (congrArg Civil.stamp same.symm)
    · exact Int.le_of_lt ((List.pairwise_cons.mp order).1 _ later)

theorem Spaced.le_of_earliest? (h : zone.Spaced) (found : zone.earliest? c = some i)
    (shows : zone.wall x = c.stamp) (low : firstStamp ≤ x) (high : x ≤ lastStamp) :
    i.stamp ≤ x := by
  obtain ⟨j, first, le⟩ := h.exists_earliest? shows low high
  rw [found] at first
  cases first
  exact le

theorem wall_of_earliest? (h : zone.Spaced) (found : zone.earliest? c = some i) :
    zone.wall i.stamp = c.stamp :=
  (shown?_eq_some_iff.mp
    ((h.exact.mem_readings_iff c i).mp (List.mem_of_mem_head? found))).1.symm

namespace Orderly

/-- Clocks that have gone back have fallen by a day at most, and that in between. -/
theorem fold (h : zone.Orderly) (lt : x < y) (back : zone.wall y ≤ zone.wall x) :
    ∃ fold, 0 < fold ∧ fold ≤ 86400 ∧ zone.wall x - zone.wall y = fold - (y - x) ∧
      zone.wall (y - fold) = zone.wall y := by
  obtain ⟨fold, positive, short, fallen, -, before⟩ := readings_of_back h.spaced lt back
  refine ⟨fold, positive, short, ?_, ((mem_readingsFrom_iff h.spaced).mp before).2⟩
  unfold wall
  omega

/-- **Clocks never go back by more than a day less than the time that has passed.** -/
theorem wall_lt (h : zone.Orderly) (lt : x < y) : zone.wall x < zone.wall y + 86400 := by
  by_cases back : zone.wall y ≤ zone.wall x
  · obtain ⟨fold, -, short, apart, -⟩ := h.fold lt back
    omega
  · omega

end Orderly

/-! ## 3. The ends of the calendar -/

/-- Long ago the first offset was in force. -/
theorem offsetFrom_of_early (recent : ∀ t ∈ ts, t.instant.natAbs ≤ 1000000000000)
    (early : x < -1000000000000) : offsetFrom offset ts x = offset := by
  cases ts with
  | nil => rfl
  | cons t rest =>
    have := recent t List.mem_cons_self
    exact if_pos (by omega)

/-- In the far future the last offset is in force. -/
theorem offsetFrom_of_late (recent : ∀ t ∈ ts, t.instant.natAbs ≤ 1000000000000)
    (late : 1000000000000 < x) (late' : 1000000000000 < y) :
    offsetFrom offset ts x = offsetFrom offset ts y := by
  induction ts generalizing offset with
  | nil => rfl
  | cons t rest ih =>
    have := recent t List.mem_cons_self
    unfold offsetFrom
    rw [if_neg (by omega), if_neg (by omega)]
    exact ih fun u hu => recent u (List.mem_cons_of_mem t hu)

/-- **Before the first instant that shows a time, clocks have shown earlier times only.** -/
theorem Regular.wall_lt_of_earliest? (h : zone.Regular) (found : zone.earliest? c = some i)
    (lt : x < i.stamp) : zone.wall x < c.stamp := by
  have shows := wall_of_earliest? h.spaced found
  refine Int.not_le.mp fun back => ?_
  rw [← shows] at back
  obtain ⟨fold, positive, short, -, before⟩ := h.orderly.fold lt back
  have low := i.first_le
  have high := i.le_last
  -- clocks do not go back where the calendar begins
  by_cases early : i.stamp - fold < firstStamp
  · simp only [firstStamp] at early
    have first : offsetFrom zone.initial zone.transitions (i.stamp - fold) = zone.initial :=
      offsetFrom_of_early h.recent (by omega)
    have last : offsetFrom zone.initial zone.transitions i.stamp = zone.initial :=
      offsetFrom_of_early h.recent (by omega)
    unfold wall at before
    omega
  · have := h.spaced.le_of_earliest? found (before.trans shows) (by omega) (by omega)
    omega

/-! ## 4. Gaps -/

/-- A time lies in a gap of the changes ahead: clocks jump over it at an instant, by a day at most. For
    two days before that one offset is in force, and for two days after it the next one. -/
structure Gap (offset : Int) (ts : List Transition) (shown gap before : Int) : Prop where
  reached : gap + before ≤ shown
  short : shown < gap + before + 86400
  jump : shown < gap + offsetFrom offset ts gap
  steady : ∀ x, gap - 172800 ≤ x → x < gap → offsetFrom offset ts x = before
  held : ∀ x, gap ≤ x → x ≤ gap + 172800 → offsetFrom offset ts x = offsetFrom offset ts gap

variable {gap before gap' before' : Int}

/-- A gap that lies far behind a change is one of the changes from there on. -/
theorem Gap.cons {t : Transition} (g : Gap t.offset ts shown gap before)
    (far : t.instant + 172800 < gap) : Gap offset (t :: ts) shown gap before := by
  have past : ∀ x, gap - 172800 ≤ x → offsetFrom offset (t :: ts) x = offsetFrom t.offset ts x :=
    fun x from' => if_neg (by omega)
  refine ⟨g.reached, g.short, ?_, fun x from' to' => ?_, fun x from' to' => ?_⟩
  · rw [past gap (by omega)]
    exact g.jump
  · rw [past x from']
    exact g.steady x from' to'
  · rw [past x (by omega), past gap (by omega)]
    exact g.held x from' to'

/-- **What clocks never show lies in a gap.** -/
theorem exists_gap_ahead (h : SpacedFrom since offset ts) (begun : ∀ s ∈ since, s + offset ≤ shown)
    (none : readingsFrom since offset ts shown = []) :
    ∃ gap before, (∀ s ∈ since, s + 172800 < gap) ∧ Gap offset ts shown gap before := by
  induction ts generalizing since offset with
  | nil =>
    have here : since.all (· ≤ shown - offset) = true := all_le_iff.mpr fun s hs => by
      have := begun s hs
      omega
    unfold readingsFrom at none
    rw [if_pos here] at none
    cases none
  | cons t rest ih =>
    obtain ⟨apart, shift, ahead⟩ := h
    have passed : t.instant + offset ≤ shown := by
      refine Int.not_lt.mp fun before => ?_
      have reading : shown - offset ∈ readingsFrom since offset (t :: rest) shown := by
        refine mem_readingsFrom_cons.mpr (.inl ⟨fun s hs => ?_, by omega, by omega⟩)
        have := begun s hs
        omega
      rw [none] at reading
      cases reading
    have later : readingsFrom (some t.instant) t.offset rest shown = [] := by
      refine List.eq_nil_iff_forall_not_mem.mpr fun x mem => ?_
      have reading : x ∈ readingsFrom since offset (t :: rest) shown :=
        mem_readingsFrom_cons.mpr (.inr mem)
      rw [none] at reading
      cases reading
    by_cases jumped : shown < t.instant + t.offset
    · have soon : ∀ x, t.instant ≤ x → x ≤ t.instant + 172800 →
          offsetFrom offset (t :: rest) x = t.offset := by
        intro x from' to'
        unfold offsetFrom
        rw [if_neg (by omega)]
        exact offsetFrom_of_near ahead to'
      have now := soon t.instant (by omega) (by omega)
      refine ⟨t.instant, offset, apart, passed, by omega, ?_, fun x _ before => if_pos before,
        fun x from' to' => ?_⟩
      · rwa [now]
      · rw [now]
        exact soon x from' to'
    · obtain ⟨gap, before, far, g⟩ := ih ahead (fun s hs => by cases hs; omega) later
      have far := far t.instant rfl
      refine ⟨gap, before, fun s hs => ?_, g.cons far⟩
      have := apart s hs
      omega

/-- Where the calendar has room, a time without a reading lies in a gap. -/
theorem Orderly.exists_gap (h : zone.Orderly) (inner : c.stamp.natAbs ≤ 8000000000000)
    (unread : zone.earliest? c = none) :
    ∃ gap before, Gap zone.initial zone.transitions c.stamp gap before := by
  have nowhere : readingsFrom none zone.initial zone.transitions c.stamp = [] := by
    refine List.eq_nil_iff_forall_not_mem.mpr fun x mem => ?_
    have shows : zone.wall x = c.stamp := ((mem_readingsFrom_iff h.spaced).mp mem).2
    have near := h.near x
    unfold wall at shows
    obtain ⟨i, found, -⟩ := h.spaced.exists_earliest? shows (by simp only [firstStamp]; omega)
      (by simp only [lastStamp]; omega)
    rw [unread] at found
    cases found
  obtain ⟨gap, before, -, g⟩ := exists_gap_ahead h.spaced nofun nowhere
  exact ⟨gap, before, g⟩

namespace Gap

/-- The offset that a gap ends is a day at most. -/
theorem near (g : Gap zone.initial zone.transitions shown gap before) (h : zone.Orderly) :
    before.natAbs ≤ 86400 := by
  rw [← g.steady (gap - 1) (by omega) (by omega)]
  exact h.near _

/-- What clocks show a day before a gap they have not shown before. -/
theorem le_of_le_wall (g : Gap zone.initial zone.transitions shown gap before) (h : zone.Orderly)
    (le : shown - 86400 ≤ zone.wall y) : gap - 86400 ≤ y := by
  refine Int.not_lt.mp fun lt => ?_
  have reached := g.reached
  have first := g.steady (gap - 86400) (by omega) (by omega)
  have back : zone.wall (gap - 86400) ≤ zone.wall y := by
    unfold wall at le ⊢
    omega
  obtain ⟨fold, positive, short, -, again⟩ := h.fold lt back
  have := g.steady (gap - 86400 - fold) (by omega) (by omega)
  unfold wall at again
  omega

/-- **The gaps of two times come in the order of the times.** -/
theorem order (g : Gap zone.initial zone.transitions x gap before)
    (g' : Gap zone.initial zone.transitions y gap' before') (h : zone.Orderly) (le : x ≤ y) :
    x - before ≤ y - before' := by
  have ⟨reached, short, jump, steady, _⟩ := g
  have ⟨reached', _, jump', steady', _⟩ := g'
  have last := steady (gap - 1) (by omega) (by omega)
  rcases Int.lt_trichotomy gap gap' with lt | same | gt
  · by_cases far : gap + 86400 ≤ gap'
    · omega
    · -- clocks do not jump a day before they jump again
      have := steady' gap (by omega) (by omega)
      have := steady' (gap - 1) (by omega) (by omega)
      omega
  · have := steady' (gap - 1) (by omega) (by omega)
    omega
  · have := g.le_of_le_wall h (y := gap') (by unfold wall; omega)
    have := steady gap' (by omega) (by omega)
    omega

end Gap

/-! ## 5. Binding -/

namespace Regular

theorem near_offsetBefore (h : zone.Regular) (c : Civil) : (zone.offsetBefore c).natAbs ≤ 86400 :=
  h.near _

/-- The offset before a time is in force at an instant of the two days before it or of the day after. -/
theorem exists_offsetBefore (h : zone.Regular) (c : Civil) :
    ∃ y, c.stamp - 172800 ≤ y ∧ y ≤ c.stamp + 86400 ∧
      zone.offsetBefore c = offsetFrom zone.initial zone.transitions y := by
  have low := c.first_le
  have high := c.le_last
  have close := c.stamp_addSecondsWithin (-86400)
  have step : c.stampAfter (-86400) = c.stamp - 86400 ∨
      c.stampAfter (-86400) = c.stamp - 86400 + 1 := by
    unfold Civil.stampAfter
    split <;> omega
  refine ⟨((zone.earliest? (c.addSecondsWithin (-86400))).getD
    (c.addSecondsWithin (-86400))).stamp, ?_, ?_, rfl⟩
  all_goals
    cases found : zone.earliest? (c.addSecondsWithin (-86400)) with
    | none =>
      rw [Option.getD_none]
      omega
    | some y =>
      have shows := wall_of_earliest? h.spaced found
      have near := h.near y.stamp
      unfold wall at shows
      rw [Option.getD_some]
      omega

/-- Far from all changes one offset is in force, and before a time it is the same. -/
theorem offsetBefore_of_far (h : zone.Regular)
    (far : x < -2000000000000 ∧ c.stamp < -2000000000000 ∨
      2000000000000 < x ∧ 2000000000000 < c.stamp) :
    offsetFrom zone.initial zone.transitions x = zone.offsetBefore c := by
  obtain ⟨y, low, high, offset⟩ := h.exists_offsetBefore c
  rw [offset]
  rcases far with early | late
  · rw [offsetFrom_of_early h.recent (by omega), offsetFrom_of_early h.recent (by omega)]
  · exact offsetFrom_of_late h.recent (by omega) (by omega)

end Regular

/-- **The offset before a time in a gap is the one that the gap ends**, unless the time is a leap second
    at the end of a gap of a whole day. -/
theorem Gap.offsetBefore_eq (g : Gap zone.initial zone.transitions c.stamp gap before)
    (h : zone.Orderly) (inner : c.stamp.natAbs ≤ 8000000000000)
    (within : c.leap = false ∨ c.stamp + 1 < gap + before + 86400) :
    zone.offsetBefore c = before := by
  have ⟨reached, short, jump, steady, _⟩ := g
  have near := g.near h
  have stamp := c.stamp_addSecondsWithin (-86400)
  have step : c.stamp - 86400 ≤ c.stampAfter (-86400) ∧
      c.stampAfter (-86400) < gap + before := by
    unfold Civil.stampAfter
    rcases within with plain | room
    · rw [plain, if_neg (by simp)]
      omega
    · split <;> omega
  simp only [firstStamp, lastStamp] at stamp
  show zone.offsetAt ((zone.earliest? (c.addSecondsWithin (-86400))).getD _) = _
  generalize c.addSecondsWithin (-86400) = b at stamp
  -- a day before, clocks show the time in the two days before the gap
  have shows : zone.wall (b.stamp - before) = b.stamp := by
    unfold wall
    rw [steady _ (by omega) (by omega)]
    omega
  obtain ⟨y, found, le⟩ := h.spaced.exists_earliest? shows (by simp only [firstStamp]; omega)
    (by simp only [lastStamp]; omega)
  have shows' := wall_of_earliest? h.spaced found
  have ahead : gap - 86400 ≤ y.stamp := g.le_of_le_wall h (by omega)
  rw [found, Option.getD_some]
  exact steady y.stamp (by omega) (by omega)

/-- That leap second is bound past the gap as well. -/
theorem Gap.le_stampAfter_of_leap (g : Gap zone.initial zone.transitions c.stamp gap before)
    (h : zone.Orderly) (inner : c.stamp.natAbs ≤ 8000000000000) (leap : c.leap = true)
    (last : gap + before + 86400 ≤ c.stamp + 1) : gap ≤ c.stampAfter (-zone.offsetBefore c) := by
  have ⟨reached, short, jump, steady, _⟩ := g
  -- clocks jump over a whole day, so the offset before is not ahead of UTC
  have near := g.near h
  have near' := h.near gap
  have stamp := c.stamp_addSecondsWithin (-86400)
  unfold Civil.stampAfter at stamp
  rw [leap, if_pos (by decide)] at stamp
  simp only [firstStamp, lastStamp] at stamp
  have offset : zone.offsetBefore c = zone.offsetAt
      ((zone.earliest? (c.addSecondsWithin (-86400))).getD (c.addSecondsWithin (-86400))) := rfl
  unfold Civil.stampAfter
  rw [offset, leap]
  generalize c.addSecondsWithin (-86400) = b at stamp
  cases found : zone.earliest? b with
  | some y =>
    have shows := wall_of_earliest? h.spaced found
    have ahead : gap - 86400 ≤ y.stamp := g.le_of_le_wall h (by omega)
    have later : y.stamp ≠ gap - 86400 := by
      intro first
      have := steady y.stamp (by omega) (by omega)
      unfold wall at shows
      omega
    have offset : zone.offsetAt y = b.stamp - y.stamp := by
      rw [← shows, wall_eq]
      omega
    rw [Option.getD_some, offset]
    split <;> omega
  | none =>
    rw [Option.getD_none]
    have offset : zone.offsetAt b = offsetFrom zone.initial zone.transitions b.stamp := rfl
    by_cases same : b.stamp = gap
    · rw [same] at offset
      rw [if_pos ⟨rfl, by omega⟩]
      omega
    · have := steady b.stamp (by omega) (by omega)
      split <;> omega

/-- **A time in a gap is bound past the gap.** -/
theorem Gap.le_stampAfter (g : Gap zone.initial zone.transitions c.stamp gap before)
    (h : zone.Orderly) (inner : c.stamp.natAbs ≤ 8000000000000) :
    gap ≤ c.stampAfter (-zone.offsetBefore c) := by
  by_cases within : c.leap = false ∨ c.stamp + 1 < gap + before + 86400
  · have reached := g.reached
    rw [g.offsetBefore_eq h inner within]
    unfold Civil.stampAfter
    split <;> omega
  · obtain ⟨leap, last⟩ := not_or.mp within
    rw [Bool.not_eq_false] at leap
    exact g.le_stampAfter_of_leap h inner leap (Int.not_lt.mp last)

namespace Regular

/-- Far from all changes a time is bound where clocks would show it, had the calendar no end. -/
theorem wall_of_outer (h : zone.Regular) (outer : 8000000000000 < c.stamp.natAbs) :
    zone.wall (c.stamp - zone.offsetBefore c) = c.stamp := by
  have near := h.near_offsetBefore c
  have steady : offsetFrom zone.initial zone.transitions (c.stamp - zone.offsetBefore c) =
      zone.offsetBefore c := h.offsetBefore_of_far (by omega)
  unfold wall
  omega

/-- **A time is bound no earlier than an instant up to which clocks have shown earlier times only.** -/
theorem le_settle (h : zone.Regular) (high : x ≤ lastStamp)
    (ahead : ∀ y, y < x → zone.wall y < c.stamp) : x ≤ (zone.settle c).stamp := by
  unfold settle
  cases found : zone.earliest? c with
  | some i =>
    rw [Option.getD_some, ← Int.not_lt]
    intro lt
    exact Int.ne_of_lt (ahead i.stamp lt) (wall_of_earliest? h.spaced found)
  | none =>
    rw [Option.getD_none, Civil.stamp_addSecondsWithin]
    have reached : x ≤ c.stampAfter (-zone.offsetBefore c) := by
      by_cases inner : c.stamp.natAbs ≤ 8000000000000
      · obtain ⟨gap, before, g⟩ := h.orderly.exists_gap inner found
        refine Int.le_trans (Int.not_lt.mp fun lt => ?_) (g.le_stampAfter h.orderly inner)
        exact Int.lt_asymm (ahead gap lt) g.jump
      · have shows := h.wall_of_outer (Nat.not_le.mp inner)
        have reached : x ≤ c.stamp - zone.offsetBefore c :=
          Int.not_lt.mp fun lt => Int.ne_of_lt (ahead _ lt) shows
        unfold Civil.stampAfter
        split <;> omega
    omega

/-- A time a day and more after what clocks show at an instant is bound no earlier than the instant. -/
theorem le_settle_of_day (h : zone.Regular)
    (later : (zone.localTime i).stamp + 86400 ≤ c.stamp) : i.stamp ≤ (zone.settle c).stamp := by
  refine h.le_settle i.le_last fun y lt => ?_
  have last := c.le_last
  have back := h.orderly.wall_lt lt
  -- where clocks have left the calendar no time is a day later
  have shown : (zone.localTime i).stamp = max firstStamp (min lastStamp (zone.wall i.stamp)) :=
    Civil.stamp_nearest _ _
  omega

/-- Where a time without a reading is bound. -/
theorem stamp_settle_of_unread (plain : c.leap = false) (unread : zone.earliest? c = none) :
    (zone.settle c).stamp = max firstStamp (min lastStamp (c.stamp - zone.offsetBefore c)) := by
  unfold settle
  rw [unread, Option.getD_none, Civil.stamp_addSecondsWithin]
  unfold Civil.stampAfter
  rw [plain, if_neg (by simp)]
  omega

/-- **Clocks do not go back to what they show where a time in a gap is bound.** -/
theorem wall_lt_of_unread (h : zone.Regular) (plain : c.leap = false)
    (unread : zone.earliest? c = none) (lt : y < (zone.settle c).stamp) :
    zone.wall y < zone.wall (zone.settle c).stamp := by
  have bound := stamp_settle_of_unread plain unread
  simp only [firstStamp, lastStamp] at bound
  generalize (zone.settle c).stamp = s at lt bound ⊢
  refine Int.not_le.mp fun back => ?_
  obtain ⟨fold, positive, short, -, again⟩ := h.orderly.fold lt back
  unfold wall at again
  by_cases inner : c.stamp.natAbs ≤ 8000000000000
  · obtain ⟨gap, before, g⟩ := h.orderly.exists_gap inner unread
    have ⟨reached, within, jump, steady, held⟩ := g
    have near := g.near h.orderly
    rw [g.offsetBefore_eq h.orderly inner (.inl plain)] at bound
    have here := held s (by omega) (by omega)
    by_cases ended : gap ≤ s - fold
    · have := held (s - fold) ended (by omega)
      omega
    · have := steady (s - fold) (by omega) (by omega)
      omega
  · have near := h.near_offsetBefore c
    have := h.offsetBefore_of_far (c := c) (x := s) (by omega)
    have := h.offsetBefore_of_far (c := c) (x := s - fold) (by omega)
    omega

/-- Of two times in gaps the earlier one is bound first. -/
theorem settle_le_of_unread (h : zone.Regular) (plain : c.leap = false) (plain' : d.leap = false)
    (unread : zone.earliest? c = none) (unread' : zone.earliest? d = none)
    (le : c.stamp ≤ d.stamp) : (zone.settle c).stamp ≤ (zone.settle d).stamp := by
  have near := h.near_offsetBefore c
  have near' := h.near_offsetBefore d
  have order : c.stamp - zone.offsetBefore c ≤ d.stamp - zone.offsetBefore d := by
    by_cases far : c.stamp + 172800 ≤ d.stamp
    · omega
    · by_cases inner : c.stamp.natAbs ≤ 7000000000000
      · obtain ⟨gap, before, g⟩ := h.orderly.exists_gap (by omega) unread
        obtain ⟨gap', before', g'⟩ := h.orderly.exists_gap (by omega) unread'
        rw [g.offsetBefore_eq h.orderly (by omega) (.inl plain),
          g'.offsetBefore_eq h.orderly (by omega) (.inl plain')]
        exact g.order g' h.orderly le
      · have := h.offsetBefore_of_far (c := c) (x := c.stamp) (by omega)
        have := h.offsetBefore_of_far (c := d) (x := c.stamp) (by omega)
        omega
  rw [stamp_settle_of_unread plain unread, stamp_settle_of_unread plain' unread']
  omega

/-- **Of two times the earlier one is bound first**, unless it lies in a gap, and the other one is shown
    before what clocks show where the first one is bound. -/
theorem settle_le_settle (h : zone.Regular) (plain : c.leap = false) (plain' : d.leap = false)
    (le : c.stamp ≤ d.stamp) (kept : zone.readings c ≠ [] ∨ zone.readings d = [] ∨
      zone.wall (zone.settle c).stamp ≤ d.stamp) :
    (zone.settle c).stamp ≤ (zone.settle d).stamp := by
  cases found : zone.earliest? c with
  | some i =>
    have bound : zone.settle c = i := by
      unfold settle
      rw [found, Option.getD_some]
    rw [bound]
    exact h.le_settle i.le_last fun y lt => Int.lt_of_lt_of_le (h.wall_lt_of_earliest? found lt) le
  | none =>
    rcases kept with shown | unread | reached
    · exact absurd (List.head?_eq_none_iff.mp found) shown
    · exact h.settle_le_of_unread plain plain' found (List.head?_eq_none_iff.mpr unread) le
    · exact h.le_settle (zone.settle c).le_last fun y lt =>
        Int.lt_of_lt_of_le (h.wall_lt_of_unread plain found lt) reached

end Regular

end Almanac.Zone
