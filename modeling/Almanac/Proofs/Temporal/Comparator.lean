import Almanac.Proofs.Calendar.Clock
import Almanac.Temporal.Comparator

/-!
# Comparing values in the frame of a seed

* Values are of one kind (`Temporal.SameKind`) when they have one constructor and, if zoned, one
  zone. What a rule makes of a seed is of the seed's kind.
* **A seed that is not zoned compares civil times as they are written**: its comparator reads dates
  and floating times in UTC, where nothing is shifted, so the key of a value is the stamp of its
  civil time, or its day when the seed is a date (`key_forSeed`).
* A value goes beyond another (`Comparator.beyond`) when it is later, and beyond a date when its own
  date is later. For values of one unzoned kind the two never disagree on the order
  (`beyond_of_key_le`).
-/

namespace Almanac

/-! ## 1. Kinds -/

/-- Values of one kind, and of one zone if they have one. -/
def Temporal.SameKind (a b : Temporal) : Prop :=
  a.kindRank = b.kindRank ∧ a.zone? = b.zone?

theorem Temporal.sameKind_of_withCivil {seed t : Temporal} {policy : GapPolicy} {civil : Civil}
    (h : seed.withCivil policy civil = some t) : t.SameKind seed := by
  cases seed with
  | date d => cases h; exact ⟨rfl, rfl⟩
  | floating c => cases h; exact ⟨rfl, rfl⟩
  | utc i => cases h; exact ⟨rfl, rfl⟩
  | zoned z =>
    obtain ⟨i, -, rfl⟩ := Option.map_eq_some_iff.mp h
    exact ⟨rfl, rfl⟩

/-! ## 2. Universal time -/

theorem Zone.localTime_utc (c : Civil) : Zone.utc.localTime c = c := by
  have low := c.first_le
  have high := c.le_last
  show Civil.nearest (c.stamp + 0) c.leap = c
  unfold Civil.nearest
  rw [dif_neg (by omega), dif_neg (by omega)]
  exact Civil.ext (by simp) rfl

theorem Zone.earliest?_utc (c : Civil) : Zone.utc.earliest? c = some c := by
  unfold Zone.earliest? Zone.readings
  simp [Zone.utc, Zone.readingsFrom]

theorem Zone.settle_utc (c : Civil) : Zone.utc.settle c = c := by
  rw [Zone.settle, Zone.earliest?_utc, Option.getD_some]

/-- Read in universal time, an unzoned value is the instant that its civil time spells. -/
theorem Temporal.instantIn_utc {t : Temporal} (h : t.zone? = none) :
    t.instantIn Zone.utc = t.localTime := by
  cases t with
  | date d => exact Zone.settle_utc _
  | floating c => exact Zone.settle_utc _
  | utc i => rfl
  | zoned z => cases h

/-! ## 3. Keys -/

namespace Comparator

theorem forSeed_of_unzoned {seed : Temporal} (h : seed.zone? = none) :
    forSeed seed = ⟨Zone.utc, if seed.isDateTime then .seconds else .days⟩ := by
  unfold forSeed Temporal.zoneOrUtc
  rw [h]
  rfl

theorem dateOf_utc {t : Temporal} (precision : Precision) (h : t.zone? = none) :
    dateOf ⟨Zone.utc, precision⟩ t = t.toDate := by
  cases t with
  | date d => exact (Civil.date_midnight d).symm
  | floating c => rfl
  | utc i => exact congrArg Civil.date (Zone.localTime_utc i)
  | zoned z => cases h

/-- **The key of an unzoned value under an unzoned seed is read off its civil time.** -/
theorem key_forSeed {seed t : Temporal} (hs : seed.zone? = none) (ht : t.zone? = none) :
    (forSeed seed).key t = if seed.isDateTime then t.localTime.stamp else t.toDate.day := by
  rw [forSeed_of_unzoned hs]
  by_cases h : seed.isDateTime = true
  · rw [if_pos h, if_pos h]
    show (t.instantIn Zone.utc).stamp = _
    rw [Temporal.instantIn_utc ht]
  · rw [if_neg h, if_neg h]
    show (dateOf _ t).day = _
    rw [dateOf_utc _ ht]

theorem before_iff {c : Comparator} {a b : Temporal} : c.before a b = true ↔ c.key a < c.key b :=
  decide_eq_true_iff

theorem after_iff {c : Comparator} {a b : Temporal} : c.after a b = true ↔ c.key b < c.key a :=
  decide_eq_true_iff

theorem before_eq_false_iff {c : Comparator} {a b : Temporal} :
    c.before a b = false ↔ c.key b ≤ c.key a := by
  rw [← Bool.not_eq_true, before_iff, Int.not_lt]

theorem after_eq_false_iff {c : Comparator} {a b : Temporal} :
    c.after a b = false ↔ c.key a ≤ c.key b := by
  rw [← Bool.not_eq_true, after_iff, Int.not_lt]

/-! ## 4. Going beyond a value -/

/-- Whether a value goes beyond a limit: a later date when the limit is a date, and later
    altogether when it is not. -/
def beyond (c : Comparator) (limit t : Temporal) : Bool :=
  match limit with
  | .date d => d.day < t.toDate.day
  | _ => c.after t limit

/-- **What comes later goes beyond as well**, unless dates are told by the clocks of a zone. -/
theorem beyond_of_key_le {seed limit a b : Temporal}
    (h : limit.isDateTime = true ∨ seed.zone? = none) (ha : a.SameKind seed) (hb : b.SameKind seed)
    (le : (forSeed seed).key a ≤ (forSeed seed).key b)
    (past : (forSeed seed).beyond limit a = true) : (forSeed seed).beyond limit b = true := by
  cases limit with
  | date d =>
    have hs : seed.zone? = none := h.resolve_left (by simp [Temporal.isDateTime])
    rw [key_forSeed hs (ha.2.trans hs), key_forSeed hs (hb.2.trans hs)] at le
    have dates : a.toDate.day ≤ b.toDate.day := by
      split at le
      · show a.localTime.stamp / 86400 ≤ b.localTime.stamp / 86400
        omega
      · exact le
    simp only [beyond, decide_eq_true_eq] at past ⊢
    omega
  | floating c =>
    simp only [beyond, after_iff] at past ⊢
    omega
  | utc i =>
    simp only [beyond, after_iff] at past ⊢
    omega
  | zoned z =>
    simp only [beyond, after_iff] at past ⊢
    omega

end Comparator

end Almanac
