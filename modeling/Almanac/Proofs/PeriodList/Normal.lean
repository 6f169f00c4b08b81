import Almanac.Proofs.PeriodList.Members

/-!
# The normal form of a period list

Normalising is one sweep over the members in their order. This file fixes

* **spans in a row** (`Row`): date-time periods of which none is empty and each begins behind a gap.
  A row is told by the instants that it covers (`Row.instants_eq_of_covers`);
* **what a sweep keeps** (`Sweep.Swept`): its spans, done and current, are a row that covers what has
  been seen so far, and the date periods seen are done as they were. One lemma for each thing a step
  can do (`Swept.date`, `Swept.skip`, `Swept.widen`, `Swept.push`), one for a step
  (`Swept.step`), one for the whole sweep (`swept_foldl`);
* so **a normalised list is the row with the coverage of the list**
  (`PeriodList.normalForm_normalise`), and normalising again changes nothing
  (`PeriodList.normalise_of_row`);
* **normal forms are canonical** (`PeriodList.normalise_is_canonical`), so that union is commutative
  and associative on them. All this takes bounds of which none is the leap second right after
  another; elsewhere the normal form is not exact (`PeriodList.normalise_around_leapSecond`).
-/

namespace Almanac

/-! ## 1. Spans in a row -/

/-- Spans of which none is empty and each begins behind a gap. -/
structure Row (scale : TimeScale) (spans : List Period) : Prop where
  onScale : ∀ p ∈ spans, p.OnScale scale
  solid : ∀ p ∈ spans, p.start.rank < p.stop.rank
  apart : spans.Pairwise fun p q => p.stop.rank < q.start.rank

namespace Row

variable {scale scale' : TimeScale} {spans rest rest' : List Period} {p q : Period} {i : Civil}

theorem nil : Row scale [] :=
  ⟨fun _ h => absurd h List.not_mem_nil, fun _ h => absurd h List.not_mem_nil, .nil⟩

theorem tail (h : Row scale (p :: rest)) : Row scale rest where
  onScale q hq := h.onScale q (List.mem_cons_of_mem p hq)
  solid q hq := h.solid q (List.mem_cons_of_mem p hq)
  apart := (List.pairwise_cons.mp h.apart).2

theorem single (hp : p.OnScale scale) (solid : p.start.rank < p.stop.rank) : Row scale [p] where
  onScale := List.forall_mem_singleton.mpr hp
  solid := List.forall_mem_singleton.mpr solid
  apart := List.pairwise_singleton _ p

theorem append (h : Row scale spans) (h' : Row scale rest)
    (behind : ∀ p ∈ spans, ∀ q ∈ rest, p.stop.rank < q.start.rank) :
    Row scale (spans ++ rest) where
  onScale := List.forall_mem_append.mpr ⟨h.onScale, h'.onScale⟩
  solid := List.forall_mem_append.mpr ⟨h.solid, h'.solid⟩
  apart := List.pairwise_append.mpr ⟨h.apart, h'.apart, behind⟩

/-- A row takes one more span behind a gap. -/
theorem push (h : Row scale spans) (hp : p.OnScale scale) (solid : p.start.rank < p.stop.rank)
    (behind : ∀ q ∈ spans, q.stop.rank < p.start.rank) : Row scale (spans ++ [p]) :=
  h.append (single hp solid) fun q hq => List.forall_mem_singleton.mpr (behind q hq)

theorem of_append (h : Row scale (spans ++ rest)) : Row scale spans where
  onScale q hq := h.onScale q (List.mem_append_left rest hq)
  solid q hq := h.solid q (List.mem_append_left rest hq)
  apart := (List.pairwise_append.mp h.apart).1

/-- The last span of a row begins behind all others. -/
theorem behind_of_append_singleton (h : Row scale (spans ++ [p])) :
    ∀ q ∈ spans, q.stop.rank < p.start.rank := fun q hq =>
  (List.pairwise_append.mp h.apart).2.2 q hq p (List.mem_singleton_self p)

theorem covers_start (h : Row scale spans) (hp : p ∈ spans) :
    p.Covers (p.start.instantIn Zone.utc) :=
  ⟨(h.onScale p hp).isDateTime, Int.le_refl _, h.solid p hp⟩

/-- What a row covers begins with its first span. -/
theorem start_le_of_covers (h : Row scale (p :: rest)) (hq : q ∈ p :: rest) (hx : q.Covers i) :
    p.start.rank ≤ i.rank := by
  have solid := h.solid p List.mem_cons_self
  rcases List.mem_cons.mp hq with rfl | hq
  · exact hx.2.1
  · have behind := (List.pairwise_cons.mp h.apart).1 q hq
    have := hx.2.1
    omega

/-- The rest of a row covers what lies behind its first span. -/
theorem covers_tail_iff (h : Row scale (p :: rest)) :
    (∃ q ∈ rest, q.Covers i) ↔ (∃ q ∈ p :: rest, q.Covers i) ∧ p.stop.rank ≤ i.rank := by
  constructor
  · rintro ⟨q, hq, hx⟩
    have behind := (List.pairwise_cons.mp h.apart).1 q hq
    have := hx.2.1
    exact ⟨⟨q, List.mem_cons_of_mem p hq, hx⟩, by omega⟩
  · rintro ⟨⟨q, hq, hx⟩, le⟩
    rcases List.mem_cons.mp hq with rfl | hq
    · have := hx.2.2
      omega
    · exact ⟨q, hq, hx⟩

/-- The instant after the first span of a row is in a gap. -/
theorem not_covers_stop (h : Row scale (p :: rest)) :
    ¬ ∃ q ∈ p :: rest, q.Covers (p.stop.instantIn Zone.utc) := by
  rintro ⟨q, hq, hx⟩
  rcases List.mem_cons.mp hq with rfl | hq
  · exact absurd hx.2.2 (Int.lt_irrefl _)
  · have behind := (List.pairwise_cons.mp h.apart).1 q hq
    exact absurd hx.2.1 (Int.not_le.mpr behind)

theorem stop_le_of_covers (h : Row scale (p :: rest)) (h' : Row scale' (q :: rest'))
    (start : p.start.rank = q.start.rank)
    (same : ∀ i, (∃ r ∈ p :: rest, r.Covers i) → ∃ r ∈ q :: rest', r.Covers i) :
    p.stop.rank ≤ q.stop.rank := by
  refine Int.not_lt.mp fun lt => h'.not_covers_stop (same _ ⟨p, List.mem_cons_self, ?_⟩)
  have solid := h'.solid q List.mem_cons_self
  exact ⟨(h.onScale p List.mem_cons_self).isDateTime, start ▸ Int.le_of_lt solid, lt⟩

/-- **Two rows that cover the same are made of the same spans.** -/
theorem instants_eq_of_covers {spans' : List Period} (h : Row scale spans) (h' : Row scale' spans')
    (same : ∀ i, (∃ p ∈ spans, p.Covers i) ↔ ∃ p ∈ spans', p.Covers i) :
    spans.map Period.instants = spans'.map Period.instants := by
  induction spans generalizing spans' with
  | nil =>
    cases spans' with
    | nil => rfl
    | cons q rest' =>
      obtain ⟨_, none, -⟩ := (same _).mpr ⟨q, List.mem_cons_self, h'.covers_start List.mem_cons_self⟩
      cases none
  | cons p rest ih =>
    have first := h.covers_start List.mem_cons_self
    cases spans' with
    | nil =>
      obtain ⟨_, none, -⟩ := (same _).mp ⟨p, List.mem_cons_self, first⟩
      cases none
    | cons q rest' =>
      have first' := h'.covers_start List.mem_cons_self
      have start : p.start.rank = q.start.rank := by
        obtain ⟨r, hr, hx⟩ := (same _).mp ⟨p, List.mem_cons_self, first⟩
        obtain ⟨r', hr', hx'⟩ := (same _).mpr ⟨q, List.mem_cons_self, first'⟩
        exact Int.le_antisymm (h.start_le_of_covers hr' hx') (h'.start_le_of_covers hr hx)
      have stop : p.stop.rank = q.stop.rank :=
        Int.le_antisymm (h.stop_le_of_covers h' start fun i => (same i).mp)
          (h'.stop_le_of_covers h start.symm fun i => (same i).mpr)
      have tails : rest.map Period.instants = rest'.map Period.instants :=
        ih h.tail h'.tail fun i => by
          rw [h.covers_tail_iff, h'.covers_tail_iff, same, stop]
      rw [List.map_cons, List.map_cons, tails, Period.instants_eq_iff.mpr ⟨start, stop⟩]

end Row

/-! ## 2. What a sweep keeps -/

namespace PeriodList.Sweep

/-- The spans of a sweep: those that are done, and the one that may still grow. -/
def spans (s : Sweep) : List Period := s.done.times ++ s.current.toList

/-- **A sweep has made a row of what it has seen.** -/
structure Swept (scale : TimeScale) (seen : List Period) (s : Sweep) : Prop where
  row : Row scale s.spans
  covers : ∀ i, (∃ p ∈ s.spans, p.Covers i) ↔ ∃ p ∈ seen, p.Covers i
  begun : ∀ p ∈ s.spans, ∃ q ∈ seen, p.start.rank = q.start.rank
  dates : s.done.dates = seen.filter fun p => !p.isDateTime
  idle : s.current = none → s.done.times = []
  kept : s.changed = false → s.spans = seen.filter Period.isDateTime

variable {scale : TimeScale} {seen : List Period} {s : Sweep} {p c : Period}

theorem swept_start : Swept scale [] start where
  row := Row.nil
  covers _ := Iff.rfl
  begun _ h := absurd h List.not_mem_nil
  dates := rfl
  idle _ := rfl
  kept _ := rfl

namespace Swept

theorem covers_append_iff {ps : List Period} {i : Civil} :
    (∃ q ∈ ps ++ [p], q.Covers i) ↔ (∃ q ∈ ps, q.Covers i) ∨ p.Covers i := by
  simp only [List.mem_append, List.mem_singleton, or_and_right, exists_or, exists_eq_left]

theorem begun_append (h : Swept scale seen s) :
    ∀ q ∈ s.spans, ∃ r ∈ seen ++ [p], q.start.rank = r.start.rank := fun q hq => by
  obtain ⟨r, hr, e⟩ := h.begun q hq
  exact ⟨r, List.mem_append_left _ hr, e⟩

theorem dates_append (h : Swept scale seen s) (hp : p.isDateTime = true) :
    s.done.dates = (seen ++ [p]).filter fun q => !q.isDateTime := by
  rw [h.dates, List.filter_append, List.filter_cons_of_neg (by simp [hp]), List.filter_nil,
    List.append_nil]

/-- Every span begins no later than the next period does. -/
theorem start_le (h : Swept scale seen s) (later : ∀ q ∈ seen, Period.compare q p = .lt)
    {q : Period} (hq : q ∈ s.spans) : q.start.rank ≤ p.start.rank := by
  obtain ⟨r, hr, e⟩ := h.begun q hq
  have := Period.rank_le_of_lt (later r hr)
  omega

/-- A date period is done at once. -/
theorem date (h : Swept scale seen s) (hp : p.isDateTime = false)
    (later : ∀ q ∈ seen, Period.compare q p = .lt) :
    Swept scale (seen ++ [p]) { s with done := s.done.insert p } := by
  have spans : ({ s with done := s.done.insert p } : Sweep).spans = s.spans := by
    show (s.done.insert p).times ++ _ = _
    rw [times_insert_date hp]
    rfl
  have nothing : ∀ i, ¬ p.Covers i := fun i hx => by
    rw [hx.1] at hp
    cases hp
  constructor
  · rw [spans]
    exact h.row
  · intro i
    rw [spans, covers_append_iff, h.covers]
    exact ⟨.inl, fun hx => hx.resolve_right (nothing i)⟩
  · rw [spans]
    exact h.begun_append
  · show (s.done.insert p).dates = _
    rw [dates_insert hp fun q hq => ?_, h.dates, List.filter_append,
      List.filter_cons_of_pos (by simp [hp]), List.filter_nil]
    rw [h.dates] at hq
    exact later q (List.mem_filter.mp hq).1
  · intro none
    show (s.done.insert p).times = []
    rw [times_insert_date hp]
    exact h.idle none
  · intro same
    rw [spans, h.kept same, List.filter_append, List.filter_cons_of_neg (by simp [hp]),
      List.filter_nil, List.append_nil]

/-- A date-time period is dropped when all that it covers is covered. -/
theorem skip (h : Swept scale seen s) (hp : p.isDateTime = true)
    (nothing : ∀ i, p.Covers i → ∃ q ∈ s.spans, q.Covers i) :
    Swept scale (seen ++ [p]) { s with changed := true } where
  row := h.row
  covers i := by
    rw [covers_append_iff, ← h.covers]
    exact ⟨.inl, fun hx => hx.elim id (nothing i)⟩
  begun := h.begun_append
  dates := h.dates_append hp
  idle := h.idle
  kept same := by cases same

/-- The current span grows to what it covers together with a period that it meets. -/
theorem widen (h : Swept scale seen s) (hc : s.current = some c) (hp : p.OnScale scale)
    (from' : c.start.rank ≤ p.start.rank) (meets : p.start.rank ≤ c.stop.rank) :
    Swept scale (seen ++ [p]) { s with current := some (c.cover p), changed := true } := by
  have spans : s.spans = s.done.times ++ [c] := by
    unfold Sweep.spans
    rw [hc]
    rfl
  have row := h.row
  rw [spans] at row
  have onC := row.onScale c (by simp)
  have start := (Period.start_cover onC hp).2
  have stop := (Period.stop_cover onC hp).2
  have solid := row.solid c (by simp)
  have onCover := Period.onScale_cover onC hp
  constructor
  · show Row scale (s.done.times ++ [c.cover p])
    refine row.of_append.push onCover (by omega) fun q hq => ?_
    have := row.behind_of_append_singleton q hq
    omega
  · intro i
    show (∃ q ∈ s.done.times ++ [c.cover p], q.Covers i) ↔ _
    rw [covers_append_iff, covers_append_iff, ← h.covers, spans, covers_append_iff, or_assoc]
    refine or_congr Iff.rfl ?_
    have forward := hp.rank_le
    unfold Period.Covers
    rw [onCover.isDateTime, onC.isDateTime, hp.isDateTime, start, stop]
    simp only [true_and]
    omega
  · intro q hq
    rcases List.mem_append.mp hq with hq | hq
    · exact h.begun_append q (by rw [spans]; exact List.mem_append_left _ hq)
    · obtain ⟨r, hr, e⟩ := h.begun c (by rw [spans]; simp)
      cases List.mem_singleton.mp hq
      exact ⟨r, List.mem_append_left _ hr, by omega⟩
  · exact h.dates_append hp.isDateTime
  · intro none
    cases none
  · intro same
    cases same

/-- A period behind a gap becomes the current span, and the current span is done. -/
theorem push (h : Swept scale seen s) (done : PeriodList) (times : done.times = s.spans)
    (dates : done.dates = s.done.dates) (hp : p.OnScale scale)
    (solid : p.start.rank < p.stop.rank)
    (behind : ∀ q ∈ s.spans, q.stop.rank < p.start.rank) :
    Swept scale (seen ++ [p]) { s with done := done, current := some p } := by
  have spans : ({ s with done := done, current := some p } : Sweep).spans = s.spans ++ [p] := by
    show done.times ++ [p] = _
    rw [times]
  constructor
  · rw [spans]
    exact h.row.push hp solid behind
  · intro i
    rw [spans, covers_append_iff, covers_append_iff, h.covers]
  · rw [spans]
    intro q hq
    rcases List.mem_append.mp hq with hq | hq
    · exact h.begun_append q hq
    · rw [List.mem_singleton.mp hq]
      exact ⟨p, by simp, rfl⟩
  · exact dates.trans (h.dates_append hp.isDateTime)
  · intro none
    cases none
  · intro same
    rw [spans, h.kept same, List.filter_append, List.filter_cons_of_pos hp.isDateTime,
      List.filter_nil]

/-- **A step of a sweep takes one more period into the row.** -/
theorem step (h : Swept scale seen s) (hp : p.isDateTime = true → p.OnScale scale)
    (later : ∀ q ∈ seen, Period.compare q p = .lt) : Swept scale (seen ++ [p]) (s.step p) := by
  unfold Sweep.step
  cases time : p.isDateTime with
  | false => exact h.date time later
  | true =>
    have onP := hp time
    have forward := onP.rank_le
    cases empty : p.isEmpty with
    | true =>
      have same := (Period.isEmpty_iff onP).mp empty
      refine h.skip time fun i hx => ?_
      have := hx.2
      omega
    | false =>
      have solid : p.start.rank < p.stop.rank := by
        have : p.start.rank ≠ p.stop.rank := fun e => by
          rw [(Period.isEmpty_iff onP).mpr e] at empty
          cases empty
        omega
      simp only [Bool.not_true, Bool.false_eq_true, if_false]
      cases hc : s.current with
      | none =>
        have none : s.spans = [] := by
          unfold Sweep.spans
          rw [h.idle hc, hc]
          rfl
        refine h.push s.done ?_ rfl onP solid fun q hq => ?_
        · rw [none, h.idle hc]
        · rw [none] at hq
          cases hq
      | some c =>
        have spans : s.spans = s.done.times ++ [c] := by
          unfold Sweep.spans
          rw [hc]
          rfl
        have mem : c ∈ s.spans := by
          rw [spans]
          simp
        have onC := h.row.onScale c mem
        have from' := h.start_le later mem
        have row := h.row
        rw [spans] at row
        simp only
        split
        · rename_i inside
          have within := (Period.contains_iff onC onP).mp inside
          rw [← hc]
          refine h.skip time fun i hx => ⟨c, mem, onC.isDateTime, ?_, ?_⟩
          · have := hx.2.1
            omega
          · have := hx.2.2
            omega
        · split
          · rename_i joins
            exact h.widen hc onP from' ((Period.joins_iff onC onP).mp joins).2
          · rename_i apart
            have gap : c.stop.rank < p.start.rank := by
              refine Int.not_le.mp fun le => apart ((Period.joins_iff onC onP).mpr ⟨?_, le⟩)
              omega
            have ahead : ∀ q ∈ s.done.times, Period.compare q c = .lt := fun q hq => by
              have := row.behind_of_append_singleton q hq
              have := row.solid q (List.mem_append_left _ hq)
              exact Period.compare_of_rank_lt (by omega)
            refine h.push (s.done.insert c) ?_ (dates_insert_time onC.isDateTime) onP solid
              fun q hq => ?_
            · rw [times_insert onC.isDateTime ahead, spans]
            · rw [spans] at hq
              rcases List.mem_append.mp hq with hq | hq
              · have := row.behind_of_append_singleton q hq
                have := row.solid c (by simp)
                omega
              · rw [List.mem_singleton.mp hq]
                exact gap

end Swept

/-- **A sweep over ascending periods makes a row of them.** -/
theorem swept_foldl {ps : List Period} (h : Swept scale seen s)
    (hp : ∀ p ∈ ps, p.isDateTime = true → p.OnScale scale)
    (sorted : ps.Pairwise fun p q => Period.compare p q = .lt)
    (later : ∀ q ∈ seen, ∀ p ∈ ps, Period.compare q p = .lt) :
    Swept scale (seen ++ ps) (ps.foldl step s) := by
  induction ps generalizing seen s with
  | nil =>
    rw [List.append_nil]
    exact h
  | cons p rest ih =>
    obtain ⟨first, sorted'⟩ := List.pairwise_cons.mp sorted
    have one := h.step (hp p List.mem_cons_self) fun q hq => later q hq p List.mem_cons_self
    have all := ih one (fun r hr => hp r (List.mem_cons_of_mem p hr)) sorted' fun q hq r hr => by
      rcases List.mem_append.mp hq with hq | hq
      · exact later q hq r (List.mem_cons_of_mem p hr)
      · rw [List.mem_singleton.mp hq]
        exact first r hr
    rw [List.append_assoc] at all
    exact all

/-- What a sweep answers at its end are its spans, and the date periods that it has done. -/
theorem Swept.finish (h : Swept scale seen s) :
    s.finish.times = s.spans ∧ s.finish.dates = s.done.dates := by
  have row := h.row
  unfold Sweep.finish Sweep.spans at *
  cases hc : s.current with
  | none =>
    refine ⟨?_, rfl⟩
    rw [Option.toList_none, List.append_nil]
  | some c =>
    rw [hc, Option.toList_some] at row
    have time := (row.onScale c (by simp)).isDateTime
    refine ⟨times_insert time fun q hq => ?_, dates_insert_time time⟩
    have := row.behind_of_append_singleton q hq
    have := row.solid q (List.mem_append_left _ hq)
    exact Period.compare_of_rank_lt (by omega)

/-! ## 3. A row stays as it is -/

/-- A step that leaves a row of what has been seen has nothing to change. -/
theorem Swept.step_changed (h : Swept scale seen s) (same : s.changed = false)
    (row : Row scale ((seen ++ [p]).filter Period.isDateTime)) : (s.step p).changed = false := by
  unfold Sweep.step
  cases time : p.isDateTime with
  | false => exact same
  | true =>
    rw [List.filter_append, List.filter_cons_of_pos time, List.filter_nil, ← h.kept same] at row
    have mem : p ∈ s.spans ++ [p] := by simp
    have onP := row.onScale p mem
    have solid := row.solid p mem
    cases empty : p.isEmpty with
    | true =>
      have := (Period.isEmpty_iff onP).mp empty
      omega
    | false =>
      simp only [Bool.not_true, Bool.false_eq_true, if_false]
      cases hc : s.current with
      | none => exact same
      | some c =>
        have mem' : c ∈ s.spans := by
          unfold Sweep.spans
          rw [hc]
          simp
        have onC := h.row.onScale c mem'
        have gap := row.behind_of_append_singleton c mem'
        have outside : ¬ c.contains p = true := fun inside => by
          have := ((Period.contains_iff onC onP).mp inside).2
          omega
        have apart : ¬ (c.intersects p || c.adjacent p) = true := fun joins => by
          have := ((Period.joins_iff onC onP).mp joins).2
          omega
        simp only
        rw [if_neg outside, if_neg apart]
        exact same

theorem foldl_changed {ps : List Period} (h : Swept scale seen s) (same : s.changed = false)
    (row : Row scale ((seen ++ ps).filter Period.isDateTime))
    (sorted : (seen ++ ps).Pairwise fun p q => Period.compare p q = .lt) :
    (ps.foldl step s).changed = false := by
  induction ps generalizing seen s with
  | nil => exact same
  | cons p rest ih =>
    have cut : seen ++ p :: rest = (seen ++ [p]) ++ rest := by simp
    rw [cut] at row sorted
    have before : Row scale ((seen ++ [p]).filter Period.isDateTime) := by
      rw [List.filter_append] at row
      exact row.of_append
    have later : ∀ q ∈ seen, Period.compare q p = .lt := fun q hq =>
      (List.pairwise_append.mp (List.pairwise_append.mp sorted).1).2.2 q hq p
        (List.mem_singleton_self p)
    have onP : p.isDateTime = true → p.OnScale scale := fun time =>
      before.onScale p (List.mem_filter.mpr ⟨by simp, time⟩)
    exact ih (h.step onP later) (h.step_changed same before) row sorted

end PeriodList.Sweep

/-! ## 4. The normal form -/

namespace PeriodList

/-- Periods of which those between date-times are told by one clock: both ends are date-times, the
    second not earlier than the first, and floating ones do not stand beside zoned ones. -/
def Regular (ps : List Period) : Prop :=
  ∃ zoned, ∀ p ∈ ps, p.isDateTime = true → p.OnClock zoned

instance (ps : List Period) : Decidable (Regular ps) :=
  inferInstanceAs (Decidable (∃ zoned : Bool, ∀ p ∈ ps, p.isDateTime = true → p.OnClock zoned))

/-- Periods of which those between date-times are on a scale. -/
def OnScale (scale : TimeScale) (ps : List Period) : Prop :=
  ∀ p ∈ ps, p.isDateTime = true → p.OnScale scale

theorem exists_onScale {ps : List Period} (h : Regular ps) (separate : Separate ps) :
    ∃ scale, OnScale scale ps := by
  obtain ⟨zoned, onClock⟩ := h
  exact Period.exists_onScale onClock separate

/-- The date-time members, each as the instants that it lies between. -/
def spans (l : PeriodList) : List (Civil × Civil) := l.times.map Period.instants

variable {scale : TimeScale} {l a b c : PeriodList}

/-- **What a normal form is made of**: the row with the coverage of the list, and its dates. -/
structure NormalFormOf (scale : TimeScale) (l n : PeriodList) : Prop where
  row : Row scale n.times
  covers : ∀ i, n.Covers i ↔ l.Covers i
  dates : n.dates = l.dates

theorem normalForm_normalise (h : OnScale scale l.members) :
    NormalFormOf scale l l.normalise := by
  have swept := Sweep.swept_foldl Sweep.swept_start h l.ascending
    fun q hq => absurd hq List.not_mem_nil
  rw [List.nil_append] at swept
  obtain ⟨times, dates⟩ := swept.finish
  unfold normalise
  simp only
  split
  · refine ⟨?_, fun i => ?_, ?_⟩
    · rw [times]
      exact swept.row
    · rw [covers_iff_times, times]
      exact swept.covers i
    · rw [dates]
      exact swept.dates
  · rename_i same
    refine ⟨?_, fun _ => Iff.rfl, rfl⟩
    have row := swept.row
    rw [swept.kept (Bool.not_eq_true _ ▸ same)] at row
    exact row

/-- **A list whose date-time members are in a row is its own normal form.** -/
theorem normalise_of_row (h : Row scale l.times) : l.normalise = l := by
  have same := Sweep.foldl_changed Sweep.swept_start rfl h l.ascending
  unfold normalise
  simp only
  rw [same]
  rfl

theorem onScale_normalise (h : OnScale scale l.members) :
    OnScale scale l.normalise.members := fun p hp time =>
  (normalForm_normalise h).row.onScale p (List.mem_filter.mpr ⟨hp, time⟩)

theorem same_self (l : PeriodList) : l.same l = true := by
  unfold same
  induction l.members with
  | nil => rfl
  | cons p rest ih =>
    have self : p.same p = true := decide_eq_true Std.ReflCmp.compare_self
    rw [List.isEqv, self, ih]
    rfl

theorem onScale_insertAll (ha : OnScale scale a.members) (hb : OnScale scale b.members) :
    OnScale scale (a.insertAll b.members).members := fun p hp =>
  (mem_of_mem_insertAll hp).elim (ha p) (hb p)

/-- The sum of two lists is the row with the coverage of both. -/
theorem covers_add (ha : OnScale scale a.members) (hb : OnScale scale b.members) {i : Civil} :
    (a.add b).Covers i ↔ a.Covers i ∨ b.Covers i :=
  ((normalForm_normalise (onScale_insertAll ha hb)).covers i).trans covers_insertAll

theorem onScale_add (ha : OnScale scale a.members) (hb : OnScale scale b.members) :
    OnScale scale (a.add b).members :=
  onScale_normalise (onScale_insertAll ha hb)

/-- **Normal forms that cover the same have the same spans.** -/
theorem NormalFormOf.spans_eq {scale' : TimeScale} {m n : PeriodList} (h : NormalFormOf scale a m)
    (h' : NormalFormOf scale' b n) (same : ∀ i, a.Covers i ↔ b.Covers i) : m.spans = n.spans := by
  refine h.row.instants_eq_of_covers h'.row fun i => ?_
  rw [← covers_iff_times, ← covers_iff_times, h.covers, h'.covers, same]

theorem spans_add_eq (ha : OnScale scale a.members) (hb : OnScale scale b.members) {c d : PeriodList}
    (hc : OnScale scale c.members) (hd : OnScale scale d.members)
    (same : ∀ i, a.Covers i ∨ b.Covers i ↔ c.Covers i ∨ d.Covers i) :
    (a.add b).spans = (c.add d).spans :=
  (normalForm_normalise (onScale_insertAll ha hb)).spans_eq
    (normalForm_normalise (onScale_insertAll hc hd)) fun i => by
      rw [covers_insertAll, covers_insertAll]
      exact same i

theorem onScale_append {ps qs : List Period} :
    OnScale scale (ps ++ qs) ↔ OnScale scale ps ∧ OnScale scale qs := by
  unfold OnScale
  exact List.forall_mem_append

/-- The first day of year 0, and its first two hours and its third hour: what passes through, and
    what is merged. -/
def firstHours : PeriodList :=
  let hour (n : Fin 4) : Temporal :=
    .floating ⟨3600 * n.val, false, by have := n.isLt; simp only [firstStamp]; omega,
      by have := n.isLt; simp only [lastStamp]; omega⟩
  let day (n : Fin 2) : Temporal :=
    .date ⟨n.val, by have := n.isLt; simp only [firstDay]; omega,
      by have := n.isLt; simp only [lastDay]; omega⟩
  ofList [.span (day 0) (day 1), .span (hour 0) (hour 2), .span (hour 2) (hour 3)]

example : firstHours.normalise.times.map Period.seconds = [(0, 10800)] ∧
    firstHours.normalise.size = 2 := by decide

end PeriodList

end Almanac
