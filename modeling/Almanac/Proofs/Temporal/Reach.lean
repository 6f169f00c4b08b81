import Almanac.Proofs.Period.Seconds
import Almanac.Proofs.Temporal.Comparator
import Almanac.Proofs.Temporal.Steps

/-!
# Steps of values that one clock tells

Without a zone every value is the second of its own civil time, and a fixed amount moves it by a number
of seconds. With zones so does elapsed time, as long as nothing floats. This file fixes

* **how far a fixed amount reaches** (`Temporal.reach`): a date takes its whole days, every other
  value all of it. A step adds just that (`Temporal.second_of_plus?`), forward, and back as long as no
  leap second is left;
* what lies between two values leads from the one to the other, but for a leap second
  (`Temporal.second_le_add_between`);
* no comparator that such a value sets up tells another order than that of the seconds
  (`Temporal.key_forSeed_le`);
* **the same with zones, for what does not float** (`Temporal.Told`) and amounts that are as long
  wherever they start (`Amount.IsSteady`).
-/

namespace Almanac

/-! ## 1. Steps of civil times -/

namespace Civil

variable {c d : Civil} {seconds : Int}

/-- So many seconds are added, unless a leap second is left backwards. -/
theorem stamp_of_addSeconds?_plain (h : c.addSeconds? seconds = some d)
    (plain : c.leap = false ∨ 0 ≤ seconds) : d.stamp = c.stamp + seconds := by
  by_cases forward : 0 ≤ seconds
  · exact stamp_of_addSeconds?_nonneg h forward
  · rw [stamp_of_addSeconds?_neg h (Int.not_le.mp forward), plain.resolve_right forward,
      if_neg Bool.false_ne_true, Int.add_zero]

/-- What has elapsed leads from one civil time to the other, give or take the leap seconds they are. -/
theorem stamp_le_add_secondsSince (c d : Civil) :
    d.stamp ≤ c.stamp + d.secondsSince c + if c.leap = true then 1 else 0 := by
  unfold secondsSince
  cases c.leap with
  | true => simp only [true_and, if_true]; split <;> split <;> omega
  | false => simp only [Bool.false_eq_true, false_and, if_false]; split <;> omega

end Civil

namespace Temporal

/-! ## 2. Steps of values -/

variable {t u a b seed : Temporal} {d : Amount}

theorem second_eq (h : t.zone? = none) : t.second = t.localTime.stamp :=
  congrArg Civil.stamp (instantIn_utc h)

theorem second_date (d : Date) : (date d).second = d.day * 86400 := by
  rw [second_eq rfl]
  exact Int.add_zero _

/-- The seconds that a fixed amount moves a value by: a date takes the whole days only. -/
def reach (t : Temporal) (d : Amount) : Int :=
  if t.isDateTime then d.fixedSeconds else d.fixedSeconds.tdiv 86400 * 86400

theorem reach_of_isDateTime (h : t.isDateTime = true) (d : Amount) : t.reach d = d.fixedSeconds :=
  if_pos h

theorem reach_date (day : Date) (d : Amount) :
    (date day).reach d = d.fixedSeconds.tdiv 86400 * 86400 := rfl

/-- The other way it is as far. -/
theorem reach_negated (h : d.isNegative = false) : t.reach d.negated = -t.reach d := by
  unfold reach
  rw [Amount.fixedSeconds_negated h, Int.neg_tdiv, Int.neg_mul]
  split <;> rfl

/-- What is not negative reaches forward, no farther than it is long and less than a day less. -/
theorem reach_bounds (t : Temporal) (h : d.isNegative = false) :
    0 ≤ t.reach d ∧ t.reach d ≤ d.fixedSeconds ∧ d.fixedSeconds < t.reach d + 86400 := by
  have nonneg := Amount.fixedSeconds_nonneg h
  unfold reach
  rw [Int.tdiv_eq_ediv_of_nonneg nonneg]
  split <;> omega

/-- What has no time of day is a date. -/
theorem exists_date (h : t.isDateTime = false) : ∃ day, t = date day := by
  cases t with
  | date day => exact ⟨day, rfl⟩
  | floating _ => cases h
  | utc _ => cases h
  | zoned _ => cases h

/-- **A fixed amount moves an unzoned value by its reach**, unless a leap second is left backwards. -/
theorem second_of_plus? (hz : t.zone? = none) (fixed : d.IsFixed)
    (plain : t.localTime.leap = false ∨ 0 ≤ d.fixedSeconds) (h : t.plus? d = some u) :
    u.zone? = none ∧ u.second = t.second + t.reach d := by
  cases d with
  | nominal n =>
    have moved : (t.localTime.addSeconds? (n.days.toInt * 86400)).bind
        (t.withCivil .shiftForward) = some u := by
      rw [← Nominal.addTo?_of_isFixed fixed]
      exact h
    obtain ⟨c, hc, hu⟩ := Option.bind_eq_some_iff.mp moved
    have stamp := Civil.stamp_of_addSeconds?_plain hc plain
    cases t with
    | date day =>
      cases hu
      refine ⟨rfl, ?_⟩
      have midnight : (Civil.midnight day).stamp = day.day * 86400 := Int.add_zero _
      have stamp : c.stamp = (Civil.midnight day).stamp + n.days.toInt * 86400 := stamp
      have whole : reach (date day) (.nominal n) = n.days.toInt * 86400 := by
        show (n.days.toInt * 86400).tdiv 86400 * 86400 = _
        rw [Int.mul_tdiv_cancel _ (by decide)]
      rw [second_date, second_date, whole]
      show c.stamp / 86400 * 86400 = _
      omega
    | floating i =>
      cases hu
      exact ⟨rfl, by rw [second_eq rfl, second_eq rfl]; exact stamp⟩
    | utc i =>
      cases hu
      exact ⟨rfl, stamp⟩
    | zoned z => cases hz
  | exact e =>
    cases t with
    | date day =>
      obtain ⟨later, hl, rfl⟩ := Option.map_eq_some_iff.mp
        (show (day.addDays? e.wholeDays).map date = some u from h)
      have days := Date.ofDay?_eq_some_iff.mp hl
      refine ⟨rfl, ?_⟩
      rw [second_date, second_date, days]
      show (day.day + e.seconds.tdiv 86400) * 86400 = day.day * 86400 + e.seconds.tdiv 86400 * 86400
      omega
    | floating i =>
      obtain ⟨later, hl, rfl⟩ := Option.map_eq_some_iff.mp
        (show (i.addSeconds? e.seconds).map floating = some u from h)
      exact ⟨rfl, by
        rw [second_eq rfl, second_eq rfl]
        exact Civil.stamp_of_addSeconds?_plain hl plain⟩
    | utc i =>
      obtain ⟨later, hl, rfl⟩ := Option.map_eq_some_iff.mp
        (show (i.addSeconds? e.seconds).map utc = some u from h)
      exact ⟨rfl, Civil.stamp_of_addSeconds?_plain hl plain⟩
    | zoned z => cases hz

/-! ## 3. What lies between -/

theorem days_between (a b : Date) : (Int32.ofInt (b.day - a.day)).toInt = b.day - a.day := by
  have := a.first_le
  have := a.le_last
  have := b.first_le
  have := b.le_last
  simp only [firstDay, lastDay] at *
  exact Numeral.toInt_ofInt (by unfold Numeral.signedMin; omega) (by unfold Numeral.signedMax; omega)

/-- What lies between two unzoned values is as long as their seconds are apart, give or take the leap
    seconds that they are. -/
theorem second_le_add_between (ha : a.zone? = none) (hb : b.zone? = none) :
    b.second ≤ a.second + (Amount.between a b).fixedSeconds +
      if a.localTime.leap = true then 1 else 0 := by
  have elapsed : b.localTime.stamp ≤ a.localTime.stamp +
      (Elapsed.between (a.instantIn Zone.utc) (b.instantIn Zone.utc)).seconds +
      if a.localTime.leap = true then 1 else 0 := by
    rw [instantIn_utc ha, instantIn_utc hb]
    exact Civil.stamp_le_add_secondsSince _ _
  rw [second_eq ha, second_eq hb]
  cases a with
  | zoned z => cases ha
  | date x =>
    cases b with
    | zoned z => cases hb
    | date y =>
      show y.day * 86400 + 0 ≤ x.day * 86400 + 0 +
        (Int32.ofInt (y.day - x.day)).toInt * 86400 + if false = true then 1 else 0
      rw [days_between]
      simp only [Bool.false_eq_true, if_false]
      omega
    | floating y => exact elapsed
    | utc y => exact elapsed
  | floating x =>
    cases b with
    | zoned z => cases hb
    | date y => exact elapsed
    | floating y => exact elapsed
    | utc y => exact elapsed
  | utc x =>
    cases b with
    | zoned z => cases hb
    | date y => exact elapsed
    | floating y => exact elapsed
    | utc y => exact elapsed

/-! ## 4. Comparison -/

/-- A period that starts in no zone compares unzoned values by their seconds. -/
theorem key_toTheSecond_of_unzoned (ha : a.zone? = none) (t : Temporal) :
    (Comparator.toTheSecond a).key t = t.second := by
  show (t.instantIn a.zoneOrUtc).stamp = _
  rw [zoneOrUtc, ha]
  rfl

/-- **What is no later to the second is no later to an unzoned seed**, which may look at days. -/
theorem key_forSeed_le (hs : seed.zone? = none) (ha : a.zone? = none) (hb : b.zone? = none)
    (le : a.second ≤ b.second) : (Comparator.forSeed seed).key a ≤ (Comparator.forSeed seed).key b := by
  rw [second_eq ha, second_eq hb] at le
  rw [Comparator.key_forSeed hs ha, Comparator.key_forSeed hs hb]
  split
  · exact le
  · show a.localTime.stamp / 86400 ≤ b.localTime.stamp / 86400
    omega

/-! ## 5. One clock -/

/-- Values that one clock can tell, dates by their midnights: where zones occur none floats, and where
    none occur they may float. -/
def Told (zoned : Bool) (t : Temporal) : Prop :=
  if zoned then t.isFloating = false else t.zone? = none

instance (zoned : Bool) (t : Temporal) : Decidable (t.Told zoned) :=
  inferInstanceAs (Decidable (if zoned then _ else _))

theorem isFloating_of_kindRank (h : a.kindRank = b.kindRank) : a.isFloating = b.isFloating := by
  cases a <;> cases b <;> first | rfl | cases h

/-- What does not float has a time of day. -/
theorem isDateTime_of_not_floating (h : t.isFloating = false) : t.isDateTime = true := by
  cases t with
  | date _ => cases h
  | floating _ => rfl
  | utc _ => rfl
  | zoned _ => rfl

/-- Elapsed time moves an instant, whichever zone it is seen in. -/
theorem instantIn_of_plus?_exact {e : Elapsed} (ht : t.isFloating = false)
    (h : t.plus? (.exact e) = some u) : u.isFloating = false ∧
      (t.instantIn Zone.utc).addSeconds? e.seconds = some (u.instantIn Zone.utc) := by
  cases t with
  | date _ => cases ht
  | floating _ => cases ht
  | utc i =>
    obtain ⟨j, hj, rfl⟩ := Option.map_eq_some_iff.mp
      (show (i.addSeconds? e.seconds).map utc = some u from h)
    exact ⟨rfl, hj⟩
  | zoned z =>
    obtain ⟨j, hj, rfl⟩ := Option.map_eq_some_iff.mp
      (show (z.instant.addSeconds? e.seconds).map (fun i => zoned ⟨i, z.zone⟩) = some u from h)
    exact ⟨rfl, hj⟩

/-- Between values that do not float time elapses. -/
theorem between_of_not_floating (ha : a.isFloating = false) (hb : b.isFloating = false) :
    Amount.between a b =
      .exact (Elapsed.between (a.instantIn Zone.utc) (b.instantIn Zone.utc)) := by
  cases a with
  | date _ => cases ha
  | floating _ => cases ha
  | utc _ =>
    cases b with
    | date _ => cases hb
    | floating _ => cases hb
    | utc _ => rfl
    | zoned _ => rfl
  | zoned _ =>
    cases b with
    | date _ => cases hb
    | floating _ => cases hb
    | utc _ => rfl
    | zoned _ => rfl

end Temporal

/-- An amount that is as long wherever it starts: where zones occur, days are not. -/
def Amount.IsSteady (zoned : Bool) (d : Amount) : Prop :=
  if zoned then ∃ e, d = .exact e else d.IsFixed

theorem Amount.isSteady_negated {zoned : Bool} {d : Amount} (h : d.IsSteady zoned) :
    d.negated.IsSteady zoned := by
  cases zoned with
  | false => exact isFixed_negated h
  | true =>
    obtain ⟨e, rfl⟩ := h
    exact ⟨e.negated, rfl⟩

namespace Temporal.Told

variable {zoned : Bool} {t u a b seed : Temporal} {d : Amount}

/-- What is of the kind of what one clock tells is told as well. -/
theorem of_sameKind (ha : a.Told zoned) (h : t.SameKind a) : t.Told zoned := by
  cases zoned with
  | false => exact h.2.trans ha
  | true => exact (isFloating_of_kindRank h.1).trans ha

/-- **A period compares by their seconds what one clock tells**, -/
theorem key_toTheSecond (ha : a.Told zoned) (ht : t.Told zoned) :
    (Comparator.toTheSecond a).key t = t.second := by
  cases zoned with
  | false => exact key_toTheSecond_of_unzoned ha t
  | true => exact congrArg Civil.stamp (instantIn_eq_of_not_floating ht _ _)

/-- a rule with a time of day does so too, -/
theorem key_forSeed (hs : seed.Told zoned) (timed : seed.isDateTime = true) (ht : t.Told zoned) :
    (Comparator.forSeed seed).key t = t.second := by
  cases zoned with
  | false => rw [Comparator.key_forSeed hs ht, if_pos timed, second_eq ht]
  | true =>
    unfold Comparator.forSeed
    rw [if_pos timed]
    exact congrArg Civil.stamp (instantIn_eq_of_not_floating ht _ _)

/-- and **what is no later to the second is no later to any rule**. -/
theorem key_forSeed_le (hs : seed.Told zoned) (ha : a.Told zoned) (hb : b.Told zoned)
    (le : a.second ≤ b.second) : (Comparator.forSeed seed).key a ≤ (Comparator.forSeed seed).key b := by
  cases zoned with
  | false => exact Temporal.key_forSeed_le hs ha hb le
  | true =>
    have timed := isDateTime_of_not_floating hs
    rwa [hs.key_forSeed timed ha, hs.key_forSeed timed hb]

/-- **A steady amount moves what one clock tells by its reach**, unless a leap second is left
    backwards. -/
theorem second_of_plus? (ht : t.Told zoned) (steady : d.IsSteady zoned)
    (plain : (t.instantIn Zone.utc).leap = false ∨ 0 ≤ d.fixedSeconds) (h : t.plus? d = some u) :
    u.Told zoned ∧ u.second = t.second + t.reach d := by
  cases zoned with
  | false =>
    rw [instantIn_utc ht] at plain
    exact Temporal.second_of_plus? ht steady plain h
  | true =>
    obtain ⟨e, rfl⟩ := steady
    obtain ⟨fixed, moved⟩ := instantIn_of_plus?_exact ht h
    rw [reach_of_isDateTime (isDateTime_of_not_floating ht)]
    exact ⟨fixed, Civil.stamp_of_addSeconds?_plain moved plain⟩

theorem second_le_add_between (ha : a.Told zoned) (hb : b.Told zoned) :
    b.second ≤ a.second + (Amount.between a b).fixedSeconds +
      if (a.instantIn Zone.utc).leap = true then 1 else 0 := by
  cases zoned with
  | false =>
    rw [instantIn_utc ha]
    exact Temporal.second_le_add_between ha hb
  | true =>
    rw [between_of_not_floating ha hb]
    exact Civil.stamp_le_add_secondsSince _ _

end Temporal.Told

end Almanac
