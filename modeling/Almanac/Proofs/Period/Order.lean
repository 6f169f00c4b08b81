import Almanac.Proofs.Amount.Order
import Almanac.Proofs.Period.Seconds
import Almanac.Proofs.Temporal.Comparator

/-!
# The order of periods

Periods are compared by their starts, then by their stops, then by their lengths, whether these are
given or lie between the bounds. This file fixes

* values without a zone that the order does not tell apart are one value
  (`Temporal.eq_of_compare_of_unzoned`), as amounts are;
* **what it takes for two periods to be the same** (`Period.same_iff`), and that the order is a total
  preorder with just this equivalence (`Period.compare_lawful`).
-/

namespace Almanac

/-! ## 1. Bounds -/

namespace Temporal

variable {a b : Temporal}

/-- **Without a zone they are one value.** -/
theorem eq_of_compare_of_unzoned (ha : a.zone? = none) (hb : b.zone? = none)
    (h : compare a b = .eq) : a = b := by
  obtain ⟨instant, kind⟩ := compare_eq_iff.mp h
  rw [instantIn_utc ha, instantIn_utc hb] at instant
  cases a with
  | date d =>
    cases b with
    | date e =>
      have days := congrArg Civil.date (show Civil.midnight d = Civil.midnight e from instant)
      rw [Civil.date_midnight, Civil.date_midnight] at days
      rw [days]
    | floating _ => cases kind
    | utc _ => cases kind
    | zoned _ => cases kind
  | floating c =>
    cases b with
    | date _ => cases kind
    | floating d => exact congrArg floating instant
    | utc _ => cases kind
    | zoned _ => cases kind
  | utc i =>
    cases b with
    | date _ => cases kind
    | floating _ => cases kind
    | utc j => exact congrArg utc instant
    | zoned _ => cases kind
  | zoned _ => cases ha

end Temporal

/-! ## 2. Periods -/

namespace Period

variable {p q r : Period}

/-- **Periods are the same** when their bounds are of one kind and one instant each, and they are
    equally long, by what is given or else by what lies between the bounds. -/
theorem same_iff : p.same q = true ↔
    (p.start.instantIn Zone.utc = q.start.instantIn Zone.utc ∧
      p.start.kindRank = q.start.kindRank) ∧
    (p.stop.instantIn Zone.utc = q.stop.instantIn Zone.utc ∧ p.stop.kindRank = q.stop.kindRank) ∧
    p.duration = q.duration := by
  unfold same
  rw [decide_eq_true_iff, compare_eq_then, Ordering.then_eq_eq, Ordering.then_eq_eq,
    Temporal.compare_eq_iff, Temporal.compare_eq_iff, Amount.compare_eq_iff]

theorem same_eq_false_iff : p.same q = false ↔ compare p q ≠ .eq := decide_eq_false_iff_not

/-- Periods without zones that are the same have the same bounds. -/
theorem bounds_eq_of_compare (hp : p.start.zone? = none ∧ p.stop.zone? = none)
    (hq : q.start.zone? = none ∧ q.stop.zone? = none) (h : compare p q = .eq) :
    p.start = q.start ∧ p.stop = q.stop := by
  rw [compare_eq_then, Ordering.then_eq_eq, Ordering.then_eq_eq] at h
  exact ⟨Temporal.eq_of_compare_of_unzoned hp.1 hq.1 h.1,
    Temporal.eq_of_compare_of_unzoned hp.2 hq.2 h.2.1⟩

/-- **The order is a total preorder, and its equivalence is to be the same.** Periods that are the same
    compare alike with every other. -/
theorem compare_lawful (p q r : Period) :
    ((compare p q).isLE = true ∨ (compare q p).isLE = true) ∧
      ((compare p q).isLE = true → (compare q r).isLE = true → (compare p r).isLE = true) ∧
      (p.same q = true ↔ (compare p q).isLE = true ∧ (compare q p).isLE = true) ∧
      (p.same q = true → compare p r = compare q r ∧ compare r p = compare r q) := by
  refine ⟨?_, Std.TransCmp.isLE_trans, ?_, ?_⟩
  · rw [compare_swap p q]
    cases compare p q with
    | lt => exact .inl rfl
    | eq => exact .inl rfl
    | gt => exact .inr rfl
  · unfold same
    rw [decide_eq_true_iff, compare_swap p q]
    cases compare p q with
    | lt => simp
    | eq => simp
    | gt => simp
  · intro same
    have same : compare p q = .eq := of_decide_eq_true same
    exact ⟨Std.TransCmp.congr_left same, Std.TransCmp.congr_right same⟩

end Period

end Almanac
