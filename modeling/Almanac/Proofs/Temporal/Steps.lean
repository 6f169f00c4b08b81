import Almanac.Proofs.Amount.Signs
import Almanac.Proofs.Calendar.Clock
import Almanac.Temporal.Arithmetic

/-!
# Steps of instants

* An amount is fixed (`Amount.IsFixed`) when it is as long wherever it starts: elapsed time, or a
  number of days. Its length is then a number of seconds (`Amount.fixedSeconds`), and a step of an
  instant adds these (`Temporal.plus?_utc`), forward as well as back (`Temporal.minus?_utc`).
* Stepping back leaves a leap second towards the second that follows it, so the way there and back
  ends one second later when it starts in a leap second (`Civil.stamp_of_addSeconds?_neg`).
* No amount that is not negative leads back in time (`Temporal.stamp_le_of_plus?_utc`).
-/

namespace Almanac

/-! ## 1. Seconds -/

namespace Civil

variable {c d : Civil} {seconds : Int}

/-- Going forward, so many seconds are added. -/
theorem stamp_of_addSeconds?_nonneg (h : c.addSeconds? seconds = some d) (forward : 0 ≤ seconds) :
    d.stamp = c.stamp + seconds := by
  obtain ⟨n, rfl⟩ := Int.eq_ofNat_of_zero_le forward
  exact stamp_of_addSeconds? h

/-- Going back, a leap second counts as a second of its own. -/
theorem stamp_of_addSeconds?_neg (h : c.addSeconds? seconds = some d) (back : seconds < 0) :
    d.stamp = c.stamp + seconds + if c.leap then 1 else 0 := by
  rw [(addSeconds?_eq_some_iff.mp h).1]
  unfold stampAfter
  simp only [back, and_true]

@[simp] theorem addSeconds?_zero (c : Civil) : c.addSeconds? 0 = some c := if_pos rfl

/-- The same time of day in a later month is a day later at least. -/
theorem add_day_le_of_addMonths? {months : Int} (h : c.addMonths? months = some d)
    (forward : 0 < months) : c.stamp + 86400 ≤ d.stamp := by
  obtain ⟨date, shifted, rfl⟩ := Option.map_eq_some_iff.mp h
  have index := Date.monthIndex_of_addMonths? shifted
  have day : c.date.day < date.day := Date.day_lt_of_monthIndex_lt (by omega)
  rw [day_date] at day
  rw [stamp_onDate]
  omega

end Civil

/-! ## 2. Fixed amounts -/

namespace Amount

/-- An amount that is as long wherever it starts: elapsed time, or a number of days. -/
def IsFixed : Amount → Prop
  | nominal n => n.years = 0 ∧ n.months = 0
  | exact _ => True

instance (d : Amount) : Decidable d.IsFixed :=
  match d with
  | nominal _ => inferInstanceAs (Decidable (_ ∧ _))
  | exact _ => inferInstanceAs (Decidable True)

/-- The length of a fixed amount. -/
def fixedSeconds : Amount → Int
  | nominal n => n.days.toInt * 86400
  | exact e => e.seconds

variable {d : Amount}

theorem isFixed_negated (h : d.IsFixed) : d.negated.IsFixed := by
  cases d with
  | nominal n =>
    obtain ⟨years, months⟩ := h
    show -n.years = 0 ∧ -n.months = 0
    rw [years, months]
    exact ⟨rfl, rfl⟩
  | exact e => trivial

theorem fixedSeconds_nonneg (h : d.isNegative = false) : 0 ≤ d.fixedSeconds := by
  cases d with
  | nominal n =>
    have days := (Nominal.isNegative_eq_false_iff.mp h).2.2
    exact Int.mul_nonneg days (by decide)
  | exact e => exact Int.not_lt.mp (of_decide_eq_false h)

/-- The other direction is as long. -/
theorem fixedSeconds_negated (h : d.isNegative = false) : d.negated.fixedSeconds = -d.fixedSeconds := by
  cases d with
  | nominal n =>
    show (-n.days).toInt * 86400 = -(n.days.toInt * 86400)
    rw [Nominal.toInt_neg_part (Nominal.isNegative_eq_false_iff.mp h).2.2, Int.neg_mul]
  | exact e => rfl

end Amount

/-- A number of days is so many days' worth of seconds. -/
theorem Nominal.addTo?_of_isFixed {n : Nominal} (h : (Amount.nominal n).IsFixed) (c : Civil) :
    n.addTo? c = c.addSeconds? (n.days.toInt * 86400) := by
  obtain ⟨years, months⟩ := h
  have none : n.totalMonths = 0 := by
    unfold totalMonths
    rw [years, months]
    rfl
  unfold addTo?
  rw [none, Civil.addMonths?_zero]
  rfl

/-- An hour that elapses. -/
def Elapsed.hour : Elapsed := ⟨3600, by decide⟩

/-! ## 3. Steps of instants -/

namespace Temporal

variable {i j : Civil} {d : Amount} {t : Temporal}

/-- **A fixed amount moves an instant by its seconds.** -/
theorem plus?_utc (h : d.IsFixed) (i : Civil) :
    (utc i).plus? d = (i.addSeconds? d.fixedSeconds).map utc := by
  cases d with
  | nominal n =>
    show (n.addTo? i).bind (fun c => some (utc c)) = (i.addSeconds? (n.days.toInt * 86400)).map utc
    rw [Nominal.addTo?_of_isFixed h, Option.map_eq_bind]
    rfl
  | exact e => rfl

theorem minus?_utc (h : d.IsFixed) (forward : d.isNegative = false) (i : Civil) :
    (utc i).plus? d.negated = (i.addSeconds? (-d.fixedSeconds)).map utc := by
  rw [plus?_utc (Amount.isFixed_negated h), Amount.fixedSeconds_negated forward]

theorem plus_eq_ok_iff {amount : Amount} {sum : Temporal} :
    t.plus amount = .ok sum ↔ t.plus? amount = some sum := by
  unfold plus
  cases t.plus? amount with
  | none =>
    constructor
    · intro h
      cases h
    · intro h
      cases h
  | some s =>
    constructor
    · intro h
      cases h
      rfl
    · intro h
      cases h
      rfl

/-- Steps of months and days that are not negative do not lead back, and lead a day forward at least
    when they are a step at all. -/
theorem stamp_le_of_addTo? {n : Nominal} (forward : n.isNegative = false)
    (h : n.addTo? i = some j) :
    i.stamp ≤ j.stamp ∧ (n ≠ Nominal.zero → i.stamp + 86400 ≤ j.stamp) := by
  obtain ⟨years, months, days⟩ := Nominal.isNegative_eq_false_iff.mp forward
  unfold Nominal.addTo? at h
  obtain ⟨shifted, hm, hd⟩ := Option.bind_eq_some_iff.mp h
  have later := Civil.stamp_of_addSeconds?_nonneg (show shifted.addSeconds? _ = some j from hd)
    (Int.mul_nonneg days (by decide))
  have total : 0 ≤ n.totalMonths := by
    unfold Nominal.totalMonths
    omega
  rcases Int.le_iff_lt_or_eq.mp total with more | none
  · have := Civil.add_day_le_of_addMonths? hm more
    omega
  · rw [← none, Civil.addMonths?_zero] at hm
    cases hm
    refine ⟨by omega, fun some => ?_⟩
    unfold Nominal.totalMonths at none
    have : n.days.toInt ≠ 0 := fun zero => some (Nominal.eq_zero_iff.mpr (by omega))
    omega

/-- **No amount that is not negative leads an instant back.** -/
theorem stamp_le_of_plus?_utc (forward : d.isNegative = false) (h : (utc i).plus? d = some t) :
    ∃ j, t = utc j ∧ i.stamp ≤ j.stamp := by
  cases d with
  | nominal n =>
    obtain ⟨j, hj, ht⟩ := Option.bind_eq_some_iff.mp
      (show (n.addTo? i).bind (fun c => some (utc c)) = some t from h)
    cases ht
    exact ⟨j, rfl, (stamp_le_of_addTo? forward hj).1⟩
  | exact e =>
    obtain ⟨j, hj, rfl⟩ := Option.map_eq_some_iff.mp
      (show (i.addSeconds? e.seconds).map utc = some t from h)
    have later := Civil.stamp_of_addSeconds?_nonneg hj (Int.not_lt.mp (of_decide_eq_false forward))
    have : 0 ≤ e.seconds := Int.not_lt.mp (of_decide_eq_false forward)
    exact ⟨j, rfl, by omega⟩

end Temporal

end Almanac
