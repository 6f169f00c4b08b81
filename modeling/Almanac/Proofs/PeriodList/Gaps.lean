import Almanac.Proofs.PeriodList.Difference
import Almanac.Proofs.PeriodList.Normal

/-!
# The gaps between spans in a row

What spans in a row leave of another row is a row again. This file fixes

* **spans in a row are the runs of what they cover** (`Row.exists_span_iff`): a run is a stretch of
  instants that have a property throughout and as far as it reaches;
* taking a span that is not empty away from a row leaves a row (`Row.flatMap_pieces`), and so does
  taking many away (`PeriodList.row_subtract`).
-/

namespace Almanac

/-! ## 1. Runs -/

/-- Before an instant that is not the first one there is a last one. -/
theorem Civil.exists_before {i j : Civil} (h : i < j) : ∃ k : Civil, k.rank + 1 = j.rank := by
  have lt : i.rank < j.rank := h
  have low := i.first_le
  have high := j.le_last
  unfold rank at lt ⊢
  cases leap : j.leap with
  | true => exact ⟨⟨j.stamp, false, j.first_le, j.le_last⟩, by simp⟩
  | false =>
    rw [leap] at lt
    have inside : firstStamp ≤ j.stamp - 1 := by
      simp only [Bool.false_eq_true, if_false] at lt
      split at lt <;> omega
    exact ⟨⟨j.stamp - 1, true, inside, by omega⟩, by simp; omega⟩

/-- **A run of a property**: a stretch of instants that have it, which neither begins earlier nor goes
    on: from any earlier instant on there is one without the property before the run, and so is the
    one right after it. -/
structure IsRun (f : Civil → Prop) (first after : Civil) : Prop where
  solid : first < after
  holds : ∀ i, first ≤ i → i < after → f i
  not_before : ∀ i, i < first → ∃ j, i ≤ j ∧ j < first ∧ ¬ f j
  not_after : ¬ f after

theorem IsRun.congr {f g : Civil → Prop} {first after : Civil} (same : ∀ i, f i ↔ g i) :
    IsRun f first after ↔ IsRun g first after := by
  rw [funext fun i => propext (same i)]

namespace Row

variable {scale : TimeScale} {spans rest : List Period} {p q : Period}

/-- Of two spans in a row one is behind a gap after the other, or they are one. -/
theorem eq_or_apart (h : Row scale spans) (hp : p ∈ spans) (hq : q ∈ spans) :
    p = q ∨ p.stop.rank < q.start.rank ∨ q.stop.rank < p.start.rank := by
  induction spans with
  | nil => exact absurd hp List.not_mem_nil
  | cons first later ih =>
    have gap := (List.pairwise_cons.mp h.apart).1
    rcases List.mem_cons.mp hp with rfl | inP
    · rcases List.mem_cons.mp hq with rfl | inQ
      · exact .inl rfl
      · exact .inr (.inl (gap q inQ))
    · rcases List.mem_cons.mp hq with rfl | inQ
      · exact .inr (.inr (gap p inP))
      · exact ih h.tail inP inQ

/-- What lies between a span of a row and its neighbours is in gaps: the instant after it, -/
theorem not_covers_after (h : Row scale spans) (hp : p ∈ spans) :
    ¬ ∃ q ∈ spans, q.Covers (p.stop.instantIn Zone.utc) := by
  rintro ⟨q, hq, -, low, high⟩
  rw [Temporal.rank_instantIn] at low high
  have solid := h.solid p hp
  rcases h.eq_or_apart hp hq with rfl | gap | gap
  · omega
  · omega
  · omega

/-- and the instants from the one before it back to the span before that. -/
theorem not_covers_before (h : Row scale spans) (hp : p ∈ spans) {i : Civil}
    (next : i.rank + 1 = p.start.rank) : ¬ ∃ q ∈ spans, q.Covers i := by
  rintro ⟨q, hq, -, low, high⟩
  have solid := h.solid p hp
  have solid' := h.solid q hq
  rcases h.eq_or_apart hp hq with rfl | gap | gap
  · omega
  · omega
  · omega

/-- **Spans in a row are the runs of what they cover.** -/
theorem exists_span_iff (h : Row scale spans) {first after : Civil} :
    (∃ p ∈ spans, p.start.instantIn Zone.utc = first ∧ p.stop.instantIn Zone.utc = after) ↔
      IsRun (fun i => ∃ p ∈ spans, p.Covers i) first after := by
  constructor
  · rintro ⟨p, hp, rfl, rfl⟩
    have covered (i : Civil) (low : p.start.rank ≤ i.rank) (high : i.rank < p.stop.rank) :
        ∃ q ∈ spans, q.Covers i := ⟨p, hp, (h.onScale p hp).isDateTime, low, high⟩
    refine ⟨h.solid p hp, covered, fun i before => ?_, h.not_covers_after hp⟩
    obtain ⟨j, last⟩ := Civil.exists_before before
    have from' : i.rank < j.rank + 1 := last ▸ before
    have to' : j.rank < (p.start.instantIn Zone.utc).rank := last ▸ Int.lt_succ j.rank
    exact ⟨j, Int.le_of_lt_add_one from', to', h.not_covers_before hp last⟩
  · rintro ⟨solid, holds, before, behind⟩
    obtain ⟨p, hp, time, low, high⟩ := holds first (Int.le_refl _) solid
    have start : p.start.rank = first.rank := by
      refine Int.le_antisymm low (Int.not_lt.mp fun lt => ?_)
      -- the span would hold what comes before the run
      obtain ⟨j, from', to', free⟩ := before (p.start.instantIn Zone.utc) lt
      exact free ⟨p, hp, time, from', Int.lt_trans to' high⟩
    have stop : p.stop.rank = after.rank := by
      refine Int.le_antisymm (Int.not_lt.mp fun lt => behind ⟨p, hp, time, ?_, lt⟩)
        (Int.not_lt.mp fun lt => h.not_covers_after hp (holds _ (Int.le_of_lt high) lt))
      exact Int.le_trans low (Int.le_of_lt solid)
    exact ⟨p, hp, Civil.rank_injective start, Civil.rank_injective stop⟩

/-! ## 2. What a span leaves of a row -/

/-- The pieces of one span are a row: where there are two, what has been taken away is between them. -/
theorem pieces (hp : p.OnScale scale) (solid : p.start.rank < p.stop.rank)
    (hq : q.OnScale scale) (solid' : q.start.rank < q.stop.rank) : Row scale (p.pieces q) where
  onScale r hr := (Period.piece_of_mem hp hq hr).onScale
  solid r hr := (Period.piece_of_mem hp hq hr).solid solid
  apart := by
    rcases Period.pieces_cases hp hq with ⟨e, -⟩ | ⟨e, -⟩ | ⟨e, -⟩ | ⟨e, -⟩ | ⟨e, -⟩
    · rw [e]
      exact List.pairwise_singleton _ _
    · rw [e]
      exact .nil
    · rw [e]
      exact List.pairwise_singleton _ _
    · rw [e]
      exact List.pairwise_singleton _ _
    · rw [e]
      exact List.pairwise_pair.mpr solid'

/-- **What a span leaves of a row is a row.** -/
theorem flatMap_pieces (h : Row scale spans) (hq : q.OnScale scale)
    (solid : q.start.rank < q.stop.rank) : Row scale (spans.flatMap (·.pieces q)) := by
  induction spans with
  | nil => exact Row.nil
  | cons p later ih =>
    have hp := h.onScale p List.mem_cons_self
    rw [List.flatMap_cons]
    refine (Row.pieces hp (h.solid p List.mem_cons_self) hq solid).append (ih h.tail)
      fun r hr r' hr' => ?_
    obtain ⟨p', hp', hr'⟩ := List.mem_flatMap.mp hr'
    have gap := (List.pairwise_cons.mp h.apart).1 p' hp'
    have piece := Period.piece_of_mem hp hq hr
    have piece' := Period.piece_of_mem (h.tail.onScale p' hp') hq hr'
    have := piece.le_to
    have := piece'.from_le
    omega

end Row

/-! ## 3. Difference of rows -/

namespace PeriodList

variable {scale : TimeScale} {a b l : PeriodList} {q : Period} {ps : List Period}

theorem times_eq_members (h : ∀ p ∈ l.members, p.OnScale scale) : l.times = l.members :=
  List.filter_eq_self.mpr fun p hp => (h p hp).isDateTime

/-- Spans in a row that are put in one after the other stay in their row. -/
theorem times_insertAll (h : Row scale (l.times ++ ps)) : (l.insertAll ps).times = l.times ++ ps := by
  induction ps generalizing l with
  | nil => exact (List.append_nil _).symm
  | cons p rest ih =>
    have cut : l.times ++ p :: rest = (l.times ++ [p]) ++ rest := by simp
    rw [cut] at h
    have row := h.of_append
    have first : (l.insert p).times = l.times ++ [p] := by
      refine times_insert (row.onScale p (by simp)).isDateTime fun r hr => ?_
      have := row.behind_of_append_singleton r hr
      have := row.solid r (List.mem_append_left _ hr)
      exact Period.compare_of_rank_lt (by omega)
    rw [cut, ← first]
    exact ih (by rw [first]; exact h)

/-- The normal form of date-times is a row. -/
theorem row_normalise (h : ∀ p ∈ l.members, p.OnScale scale) : Row scale l.normalise.members := by
  have form := normalForm_normalise fun p hp _ => h p hp
  have dates : l.normalise.dates = [] := by
    rw [form.dates]
    exact List.filter_eq_nil_iff.mpr fun p hp => by simp [(h p hp).isDateTime]
  have times : l.normalise.times = l.normalise.members :=
    List.filter_eq_self.mpr fun p hp => by
      have other := List.filter_eq_nil_iff.mp dates p hp
      rw [Bool.not_eq_true, Bool.not_eq_false'] at other
      exact other
  rw [← times]
  exact form.row

/-- **Taking a span that is not empty away from a row leaves a row.** -/
theorem row_subtractOne (h : Row scale l.members) (hq : q.OnScale scale)
    (solid : q.start.rank < q.stop.rank) : Row scale (l.subtractOne q).members := by
  have all : (l.members.filter fun p => p.isDateTime || !p.same q) = l.members :=
    List.filter_eq_self.mpr fun p hp => by rw [(h.onScale p hp).isDateTime, Bool.true_or]
  have row := h.flatMap_pieces hq solid
  have put : (l.subtractOne q).times = l.members.flatMap (·.pieces q) := by
    unfold subtractOne
    rw [all]
    exact times_insertAll (l := .empty) row
  have left : ∀ r ∈ (l.subtractOne q).members, r.OnScale scale := fun r hr => by
    obtain ⟨p, hp, piece⟩ := exists_piece_of_mem_subtractOne hr
    exact (Period.piece_of_mem (h.onScale p hp) hq piece).onScale
  rw [← times_eq_members left, put]
  exact row

/-- **What a row leaves of a row is a row.** -/
theorem row_subtract (ha : Row scale a.members) (hb : Row scale b.members) :
    Row scale (a.subtract b).members := by
  unfold subtract
  generalize b.members = qs at hb
  induction qs generalizing a with
  | nil => exact ha
  | cons q rest ih =>
    have one := row_subtractOne ha (hb.onScale q List.mem_cons_self) (hb.solid q List.mem_cons_self)
    exact ih one hb.tail

end PeriodList

end Almanac
