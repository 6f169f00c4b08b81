import Almanac.Proofs.Zone.Settling

/-!
# What a civil time resolves to

A zone whose changes are more than two days apart, by a day at most, and whose offsets are less than a
day resolves every civil time that is not near the ends of the calendar. This file fixes

* that **a time that is shown resolves to the first instant that shows it**, under either policy;
* that any other time is one that clocks jump over (`Zone.JumpsOver`). The offset before the jump is
  found by going back a day (`Zone.Gap.offsetBefore_eq_of_near`), even where a day back is in the gap
  itself;
* so **such a time resolves past the gap**, as far behind the gap as it lies in it, or to nothing under
  the policy that skips (`Zone.resolves_exactly`);
* that a leap second is moved one second further east of UTC (`Zone.leapSecond_moved_further`): going
  back by the offset counts it as a second of its own.
-/

namespace Almanac

/-! ## 1. Years and steps -/

namespace Civil

variable {c d : Civil} {seconds : Int}

/-- Years that are not near the ends of the calendar. -/
theorem natAbs_stamp_le_of_year (h : c.date.year.natAbs ≤ 250000) :
    c.stamp.natAbs ≤ 8000000000000 := by
  obtain ⟨begun, notOver⟩ := c.date.year_bounds
  have first := yearStart_le_of_le (show -250000 ≤ c.date.year by omega)
  have last := yearStart_le_of_le (show c.date.year + 1 ≤ 250001 by omega)
  have low : yearStart (-250000) = -91310625 := by decide
  have high : yearStart 250001 = 91310991 := by decide
  rw [day_date] at begun notOver
  omega

/-- A step that stays in the calendar does not come to its ends. -/
theorem addSecondsWithin_of_addSeconds? (h : c.addSeconds? seconds = some d) :
    c.addSecondsWithin seconds = d := by
  unfold addSeconds? at h
  unfold addSecondsWithin
  split at h
  · rename_i none
    rw [if_pos none]
    exact Option.some.inj h
  · rename_i some'
    obtain ⟨stamp, leap⟩ := ofStamp?_eq_some_iff.mp h
    have low := d.first_le
    have high := d.le_last
    rw [if_neg some', nearest, dif_neg (by omega), dif_neg (by omega)]
    exact Civil.ext stamp.symm leap.symm

end Civil

namespace Zone

variable {zone : Zone} {c i j : Civil} {gap before after : Int}

/-! ## 2. Times that are shown -/

/-- **A time that is shown is found at the first instant that shows it.** -/
theorem Spaced.earliest?_of_shown (h : zone.Spaced) (shows : zone.shown? j = some c) :
    ∃ i, zone.earliest? c = some i ∧ zone.shown? i = some c ∧
      ∀ k, zone.shown? k = some c → i ≤ k := by
  obtain ⟨stamp, -⟩ := shown?_eq_some_iff.mp shows
  obtain ⟨i, found, -⟩ := h.exists_earliest? (x := j.stamp) stamp.symm j.first_le j.le_last
  have own : zone.shown? i = some c :=
    (h.exact.mem_readings_iff c i).mp (List.mem_of_mem_head? found)
  refine ⟨i, found, own, fun k hk => ?_⟩
  obtain ⟨stamp, leap⟩ := shown?_eq_some_iff.mp hk
  have le := h.le_of_earliest? found (x := k.stamp) stamp.symm k.first_le k.le_last
  show i.rank ≤ k.rank
  unfold Civil.rank
  rw [← (shown?_eq_some_iff.mp own).2, ← leap]
  omega

theorem Spaced.earliest?_of_never (h : zone.Spaced) (never : ∀ j, zone.shown? j ≠ some c) :
    zone.earliest? c = none := by
  cases found : zone.earliest? c with
  | none => rfl
  | some i =>
    exact absurd ((h.exact.mem_readings_iff c i).mp (List.mem_of_mem_head? found)) (never i)

/-- What has no reading is shown at no instant. -/
theorem Spaced.never_shown (h : zone.Spaced) (none : zone.readings c = []) (j : Civil) :
    zone.shown? j ≠ some c := fun shows => by
  have reading := (h.exact.mem_readings_iff c j).mpr shows
  rw [none] at reading
  cases reading

/-! ## 3. Times that are not -/

/-- Clocks jump over a time: for two days before an instant they are ahead of UTC by one offset, for two
    days after it by another, and the time lies in between. -/
structure JumpsOver (zone : Zone) (c : Civil) (gap before after : Int) : Prop where
  steady : ∀ x, gap - 172800 ≤ x → x < gap → zone.wall x = x + before
  held : ∀ x, gap ≤ x → x ≤ gap + 172800 → zone.wall x = x + after
  reached : gap + before ≤ c.stamp
  jump : c.stamp < gap + after

theorem Gap.jumpsOver (g : Gap zone.initial zone.transitions c.stamp gap before) :
    zone.JumpsOver c gap before (offsetFrom zone.initial zone.transitions gap) where
  steady x low high := congrArg (x + ·) (g.steady x low high)
  held x low high := congrArg (x + ·) (g.held x low high)
  reached := g.reached
  jump := g.jump

/-- **The offset before a time in a gap is the one that the gap ends**, as offsets are less than a day. A
    day before a leap second the gap may have begun; but then clocks jump over a whole day, from
    behind UTC, so that read as an instant the day before still comes before the gap. -/
theorem Gap.offsetBefore_eq_of_near (g : Gap zone.initial zone.transitions c.stamp gap before)
    (h : zone.Orderly) (near : ∀ x, (offsetFrom zone.initial zone.transitions x).natAbs < 86400)
    (inner : c.stamp.natAbs ≤ 8000000000000) : zone.offsetBefore c = before := by
  by_cases within : c.leap = false ∨ c.stamp + 1 < gap + before + 86400
  · exact g.offsetBefore_eq h inner within
  · obtain ⟨leap, last⟩ := not_or.mp within
    rw [Bool.not_eq_false] at leap
    have ⟨reached, short, jump, steady, _⟩ := g
    have near' := near gap
    have own := g.near h
    have stamp := c.stamp_addSecondsWithin (-86400)
    unfold Civil.stampAfter at stamp
    rw [leap, if_pos (by decide)] at stamp
    simp only [firstStamp, lastStamp] at stamp
    show zone.offsetAt ((zone.earliest? (c.addSecondsWithin (-86400))).getD _) = _
    generalize c.addSecondsWithin (-86400) = b at stamp
    have unread : zone.earliest? b = none := by
      cases found : zone.earliest? b with
      | none => rfl
      | some y =>
        have shows := wall_of_earliest? h.spaced found
        have ahead : gap - 86400 ≤ y.stamp := g.le_of_le_wall h (by omega)
        have jumped : zone.wall gap = gap + offsetFrom zone.initial zone.transitions gap := rfl
        rcases Int.lt_trichotomy y.stamp gap with lt | same | gt
        · have := steady y.stamp (by omega) lt
          unfold wall at shows
          omega
        · rw [same] at shows
          omega
        · have := h.wall_lt gt
          omega
    rw [unread, Option.getD_none]
    exact steady b.stamp (by omega) (by omega)

/-- **Where a time in a gap is bound, and what clocks show there.** -/
theorem Gap.settle_eq (g : Gap zone.initial zone.transitions c.stamp gap before) (h : zone.Orderly)
    (near : ∀ x, (offsetFrom zone.initial zone.transitions x).natAbs < 86400)
    (inner : c.stamp.natAbs ≤ 8000000000000) (unread : zone.earliest? c = none) :
    ∃ d, c.addSeconds? (-before) = some (zone.settle c) ∧ zone.shown? (zone.settle c) = some d ∧
      d.stamp = c.stampAfter (-before) + offsetFrom zone.initial zone.transitions gap ∧
      d.leap = (c.leap && decide (before = 0)) := by
  have ⟨reached, short, jump, steady, held⟩ := g
  have own := g.near h
  have near' := near gap
  have step : c.stamp - before ≤ c.stampAfter (-before) ∧
      c.stampAfter (-before) ≤ c.stamp - before + 1 := by
    unfold Civil.stampAfter
    split <;> omega
  obtain ⟨i, hi⟩ : ∃ i, c.addSeconds? (-before) = some i := by
    refine ⟨⟨c.stampAfter (-before), c.leap && decide (-before = 0), ?_, ?_⟩,
      Civil.addSeconds?_eq_some_iff.mpr ⟨rfl, rfl⟩⟩
    · simp only [firstStamp]
      omega
    · simp only [lastStamp]
      omega
  have bound : zone.settle c = i := by
    unfold settle
    rw [unread, Option.getD_none, g.offsetBefore_eq_of_near h near inner]
    exact Civil.addSecondsWithin_of_addSeconds? hi
  obtain ⟨stamp, leap⟩ := Civil.addSeconds?_eq_some_iff.mp hi
  have offset : zone.offsetAt i = offsetFrom zone.initial zone.transitions gap :=
    held i.stamp (by omega) (by omega)
  have zero : decide (-before = 0) = decide (before = 0) := by
    rw [decide_eq_decide]
    omega
  rw [bound]
  refine ⟨⟨i.stamp + zone.offsetAt i, i.leap, ?_, ?_⟩, hi, shown?_eq_some_iff.mpr ⟨rfl, rfl⟩, ?_, ?_⟩
  · simp only [firstStamp]
    omega
  · simp only [lastStamp]
    omega
  · show i.stamp + zone.offsetAt i = _
    rw [stamp, offset]
  · show i.leap = _
    rw [leap, zero]

/-! ## 4. Both -/

/-- **A time that is shown resolves to the first instant that shows it, any other one past the gap that
    it lies in.** The zone's changes are more than two days apart, by a day at most, its offsets are less
    than a day, and the year is not near the ends of the calendar.

    What is never shown lies in a gap. It is skipped, or moved to the instant that it would be with the
    offset before the gap; clocks then show it later by as much as they have jumped, which is as far
    behind the gap as it lies in it. Only for a leap second with an offset that is not behind UTC it is
    different: without an offset it stays a leap second, and else the step back has counted it as a
    second of its own. -/
theorem resolves_exactly (zone : Zone) (c : Civil) (spaced : zone.Spaced)
    (near : ∀ o ∈ zone.initial :: zone.transitions.map Transition.offset, o.natAbs < 86400)
    (years : c.date.year.natAbs ≤ 250000) :
    (∀ j, zone.shown? j = some c → ∃ i, (∀ policy : GapPolicy, policy.resolve zone c = some i) ∧
        zone.shown? i = some c ∧ ∀ k, zone.shown? k = some c → i ≤ k) ∧
      ((∀ j, zone.shown? j ≠ some c) → GapPolicy.skip.resolve zone c = none ∧
        ∃ gap before after, zone.JumpsOver c gap before after ∧
          ∃ i d, GapPolicy.shiftForward.resolve zone c = some i ∧
            c.addSeconds? (-before) = some i ∧ zone.shown? i = some d ∧
            (c.leap = false ∨ before < 0 → c.addSeconds? (after - before) = some d ∧
              d.stamp - (gap + after) = c.stamp - (gap + before)) ∧
            (c.leap = true → 0 ≤ before → d.leap = decide (before = 0) ∧
              d.stamp = c.stamp + (after - before) + if before = 0 then 0 else 1)) := by
  have nearer : ∀ x, (offsetFrom zone.initial zone.transitions x).natAbs < 86400 := fun x =>
    near _ (offsetFrom_mem zone.initial zone.transitions x)
  have orderly : zone.Orderly := ⟨spaced, fun x => Nat.le_of_lt (nearer x)⟩
  have inner := Civil.natAbs_stamp_le_of_year years
  constructor
  · intro j shows
    obtain ⟨i, found, own, first⟩ := spaced.earliest?_of_shown shows
    exact ⟨i, fun policy => resolve_of_earliest? policy found, own, first⟩
  · intro never
    have unread := spaced.earliest?_of_never never
    obtain ⟨gap, before, g⟩ := orderly.exists_gap inner unread
    obtain ⟨d, settled, shows, stamp, leap⟩ := g.settle_eq orderly nearer inner unread
    have jumps := g.jumpsOver
    generalize offsetFrom zone.initial zone.transitions gap = after at jumps stamp
    have ahead : before < after := by
      have := jumps.reached
      have := jumps.jump
      omega
    refine ⟨unread, gap, before, after, jumps, zone.settle c, d, rfl, settled, shows, fun plain => ?_,
      fun own east => ?_⟩
    · have later : d.stamp = c.stamp + (after - before) ∧ d.leap = false := by
        rcases plain with plain | west
        · rw [Civil.stampAfter_of_plain plain] at stamp
          rw [plain] at leap
          exact ⟨by omega, leap⟩
        · unfold Civil.stampAfter at stamp
          rw [if_neg (by omega)] at stamp
          rw [decide_eq_false (by omega), Bool.and_false] at leap
          exact ⟨by omega, leap⟩
      refine ⟨Civil.addSeconds?_eq_some_iff.mpr ⟨?_, ?_⟩, by omega⟩
      · unfold Civil.stampAfter
        rw [if_neg (by omega)]
        omega
      · rw [decide_eq_false (by omega), Bool.and_false]
        exact later.2
    · rw [own, Bool.true_and] at leap
      refine ⟨leap, ?_⟩
      unfold Civil.stampAfter at stamp
      by_cases zero : before = 0
      · rw [if_neg (by omega)] at stamp
        rw [if_pos zero]
        omega
      · rw [if_pos ⟨own, by omega⟩] at stamp
        rw [if_neg zero]
        omega

/-! ## 5. A night in Paris -/

/-- In the night to 31 March 2024 clocks in Paris jump from two to three. -/
def jumpOfParis : Int := 63879066000

/-- Half past two in that night. -/
def halfPastTwo : Civil := ⟨63879071400, false, by decide, by decide⟩

/-- A leap second in front of three, 2:59:60. -/
def leapBeforeThree : Civil := ⟨63879073199, true, by decide, by decide⟩

theorem spaced_paris : ZoneTable.paris.Spaced := by decide +kernel

theorem near_paris : ∀ o ∈ ZoneTable.paris.initial ::
    ZoneTable.paris.transitions.map Transition.offset, o.natAbs < 86400 := by decide +kernel

theorem halfPastTwo_in_paris :
    (ZoneTable.paris.Spaced ∧ (∀ o ∈ ZoneTable.paris.initial ::
        ZoneTable.paris.transitions.map Transition.offset, o.natAbs < 86400) ∧
        halfPastTwo.date.year.natAbs ≤ 250000 ∧
        ∀ j, ZoneTable.paris.shown? j ≠ some halfPastTwo) ∧
      GapPolicy.skip.resolve ZoneTable.paris halfPastTwo = none ∧
      ∃ gap before after, ZoneTable.paris.JumpsOver halfPastTwo gap before after ∧
        ∃ i d, GapPolicy.shiftForward.resolve ZoneTable.paris halfPastTwo = some i ∧
          ZoneTable.paris.shown? i = some d ∧
          d.stamp - (gap + after) = halfPastTwo.stamp - (gap + before) := by
  have years : halfPastTwo.date.year.natAbs ≤ 250000 := by decide +kernel
  have never := spaced_paris.never_shown
    (show ZoneTable.paris.readings halfPastTwo = [] by decide +kernel)
  obtain ⟨skipped, gap, before, after, jumps, i, d, resolved, -, shows, later, -⟩ :=
    (resolves_exactly ZoneTable.paris halfPastTwo spaced_paris near_paris years).2 never
  exact ⟨⟨spaced_paris, near_paris, years, never⟩, skipped, gap, before, after, jumps, i, d, resolved,
    shows, (later (.inl rfl)).2⟩

/-- **A leap second is moved one second further**: clocks jump by an hour, but what they show where
    2:59:60 is bound is 4:00:00, which is neither an hour after 2:59:60 nor the leap second an hour
    later. -/
theorem leapSecond_moved_further :
    ZoneTable.paris.Spaced ∧ (∀ o ∈ ZoneTable.paris.initial ::
        ZoneTable.paris.transitions.map Transition.offset, o.natAbs < 86400) ∧
      leapBeforeThree.date.year = 2024 ∧
      (∀ j, ZoneTable.paris.shown? j ≠ some leapBeforeThree) ∧
      ZoneTable.paris.wall (jumpOfParis - 1) = jumpOfParis - 1 + 3600 ∧
      ZoneTable.paris.wall jumpOfParis = jumpOfParis + 7200 ∧
      jumpOfParis + 3600 ≤ leapBeforeThree.stamp ∧ leapBeforeThree.stamp < jumpOfParis + 7200 ∧
      ∃ i d, GapPolicy.shiftForward.resolve ZoneTable.paris leapBeforeThree = some i ∧
        ZoneTable.paris.shown? i = some d ∧
        leapBeforeThree.addSeconds? (7200 - 3600) ≠ some d ∧
        leapBeforeThree.shift? (7200 - 3600) ≠ some d := by
  have never := spaced_paris.never_shown
    (show ZoneTable.paris.readings leapBeforeThree = [] by decide +kernel)
  exact ⟨spaced_paris, near_paris, by decide +kernel, never, by decide +kernel, by decide +kernel,
    by decide, by decide, ⟨63879069600, false, by decide, by decide⟩,
    ⟨63879076800, false, by decide, by decide⟩, by decide +kernel, by decide +kernel, by decide, by decide⟩

end Zone

end Almanac
