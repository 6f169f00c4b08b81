import Almanac.Proofs.Period.Coverage

/-!
# What one period leaves of another

Taking a period away from another leaves at most two spans. This file fixes

* **each of the five things that can be left** (`Period.pieces_cases`), with the order of the bounds
  in which it is: all, nothing, an end, a beginning, or both;
* the pieces cover what the one period covers and the other does not (`Period.covers_pieces`), lie
  inside the one and do not overlap the other (`Period.Piece`), and meet nothing that the whole
  period does not meet (`Period.Piece.clear`);
* the pieces of a period that is not empty are not empty (`Period.Piece.solid`).
-/

namespace Almanac.Period

variable {scale : TimeScale} {p q r h : Period} {i : Civil}

/-! ## 1. The five cases -/

/-- **What is left of a period**: all of it, when the two do not intersect; nothing, when the other
    one reaches over both bounds; the end, the beginning, or both. -/
theorem pieces_cases (hp : p.OnScale scale) (hq : q.OnScale scale) :
    (p.pieces q = [p] ∧ p.intersects q = false) ∨
    (p.pieces q = [] ∧ q.start.rank ≤ p.start.rank ∧ p.stop.rank ≤ q.stop.rank) ∨
    (p.pieces q = [span q.stop p.stop] ∧ q.start.rank ≤ p.start.rank ∧
      p.start.rank < q.stop.rank ∧ q.stop.rank < p.stop.rank) ∨
    (p.pieces q = [span p.start q.start] ∧ p.start.rank < q.start.rank ∧
      q.start.rank < p.stop.rank ∧ p.stop.rank ≤ q.stop.rank) ∨
    (p.pieces q = [span p.start q.start, span q.stop p.stop] ∧
      p.start.rank < q.start.rank ∧ q.stop.rank < p.stop.rank) := by
  have time : p.isDateTime = true := hp.isDateTime
  have forward := hp.rank_le
  have forward' := hq.rank_le
  unfold pieces
  simp only [time, after_eq_false_iff hp hq.start hp.start, before_eq_false_iff hp hq.stop hp.stop,
    Bool.not_true, Bool.false_or, Bool.not_eq_true']
  cases meets : p.intersects q with
  | false => exact .inl ⟨rfl, rfl⟩
  | true =>
    have overlap := (intersects_iff hp hq).mp meets
    simp only [Bool.true_eq_false, if_false]
    cases inside : q.contains p with
    | true => exact .inr (.inl ⟨rfl, (contains_iff hq hp).mp inside⟩)
    | false =>
      have outside : ¬ (q.start.rank ≤ p.start.rank ∧ p.stop.rank ≤ q.stop.rank) := by
        rw [← contains_iff hq hp, inside]
        exact Bool.false_ne_true
      simp only [Bool.false_eq_true, if_false]
      split
      · exact .inr (.inr (.inl ⟨rfl, by omega⟩))
      · split
        · exact .inr (.inr (.inr (.inl ⟨rfl, by omega⟩)))
        · exact .inr (.inr (.inr (.inr ⟨rfl, by omega⟩)))

/-! ## 2. Laws of the pieces -/

/-- **The pieces cover what the one period covers and the other does not.** -/
theorem covers_pieces (hp : p.OnScale scale) (hq : q.OnScale scale) :
    (∃ r ∈ p.pieces q, r.Covers i) ↔ p.Covers i ∧ ¬ q.Covers i := by
  have forward' := hq.rank_le
  rw [hp.covers_iff, hq.covers_iff]
  rcases pieces_cases hp hq with ⟨e, apart⟩ | ⟨e, o⟩ | ⟨e, o⟩ | ⟨e, o⟩ | ⟨e, o⟩
  · have disjoint := Bool.eq_false_iff.mp apart
    rw [Ne, intersects_iff hp hq] at disjoint
    simp only [e, List.mem_singleton, exists_eq_left, hp.covers_iff]
    omega
  · simp only [e, List.not_mem_nil, false_and, exists_false, false_iff]
    omega
  · simp only [e, List.mem_singleton, exists_eq_left, covers_span hq.stop]
    omega
  · simp only [e, List.mem_singleton, exists_eq_left, covers_span hp.start]
    omega
  · simp only [e, List.mem_cons, List.not_mem_nil, or_false, exists_eq_or_imp, exists_eq_left,
      covers_span hp.start, covers_span hq.stop]
    omega

/-- **A piece of a period**: the period itself where the other one does not meet it, and otherwise a
    span inside it that is not empty and does not overlap the other one. -/
structure Piece (scale : TimeScale) (p q r : Period) : Prop where
  onScale : r.OnScale scale
  from_le : p.start.rank ≤ r.start.rank
  le_to : r.stop.rank ≤ p.stop.rank
  apart : r.intersects q = false
  whole_or_solid : r = p ∨ r.start.rank < r.stop.rank

/-- A span between bounds of the two periods is a piece when it is not empty and on one side. -/
theorem Piece.span {a b : Temporal} (hq : q.OnScale scale) (ha : scale.tells a)
    (hb : scale.tells b) (solid : a.rank < b.rank)
    (from_le : p.start.rank ≤ a.rank) (le_to : b.rank ≤ p.stop.rank)
    (side : b.rank ≤ q.start.rank ∨ q.stop.rank ≤ a.rank) :
    Piece scale p q (Period.span a b) := by
  have onScale : (Period.span a b).OnScale scale := OnScale.span ha hb (Int.le_of_lt solid)
  have forward := hq.rank_le
  refine ⟨onScale, from_le, le_to, Bool.eq_false_iff.mpr fun meets => ?_, .inr solid⟩
  have overlap : (a.rank = q.start.rank ∧ b.rank = q.stop.rank) ∨
    (a.rank < q.stop.rank ∧ q.start.rank < b.rank) := (intersects_iff onScale hq).mp meets
  omega

theorem piece_of_mem (hp : p.OnScale scale) (hq : q.OnScale scale) (hr : r ∈ p.pieces q) :
    Piece scale p q r := by
  have forward' := hq.rank_le
  rcases pieces_cases hp hq with ⟨e, apart⟩ | ⟨e, o⟩ | ⟨e, o⟩ | ⟨e, o⟩ | ⟨e, o⟩
  · rw [e, List.mem_singleton] at hr
    subst hr
    exact ⟨hp, Int.le_refl _, Int.le_refl _, apart, .inl rfl⟩
  · rw [e] at hr
    cases hr
  · rw [e, List.mem_singleton] at hr
    subst hr
    exact .span hq hq.stop hp.stop (by omega) (by omega) (by omega) (.inr (by omega))
  · rw [e, List.mem_singleton] at hr
    subst hr
    exact .span hq hp.start hq.start (by omega) (by omega) (by omega) (.inl (by omega))
  · rw [e, List.mem_cons, List.mem_singleton] at hr
    rcases hr with rfl | rfl
    · exact .span hq hp.start hq.start (by omega) (by omega) (by omega) (.inl (by omega))
    · exact .span hq hq.stop hp.stop (by omega) (by omega) (by omega) (.inr (by omega))

namespace Piece

/-- A piece lies inside what holds the whole period. -/
theorem contained (piece : Piece scale p q r) (hh : h.OnScale scale) (hp : p.OnScale scale)
    (inside : h.contains p = true) : h.contains r = true := by
  have bounds := (contains_iff hh hp).mp inside
  have := piece.from_le
  have := piece.le_to
  exact (contains_iff hh piece.onScale).mpr ⟨by omega, by omega⟩

/-- **A piece meets nothing that the whole period does not meet.** -/
theorem clear (piece : Piece scale p q r) (hp : p.OnScale scale) (hh : h.OnScale scale)
    (apart : p.intersects h = false) : r.intersects h = false := by
  rcases piece.whole_or_solid with rfl | solid
  · exact apart
  · -- a piece that is not empty has an instant in common with whatever it meets
    have disjoint := Bool.eq_false_iff.mp apart
    rw [Ne, intersects_iff hp hh] at disjoint
    have := piece.from_le
    have := piece.le_to
    refine Bool.eq_false_iff.mpr fun meets => disjoint (.inr ?_)
    have overlap := (intersects_iff piece.onScale hh).mp meets
    omega

theorem solid (piece : Piece scale p q r) (hp : p.start.rank < p.stop.rank) :
    r.start.rank < r.stop.rank := by
  rcases piece.whole_or_solid with rfl | solid
  · exact hp
  · exact solid

end Piece

end Almanac.Period
