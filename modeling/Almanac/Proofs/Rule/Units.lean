import Almanac.Proofs.Calendar.Clock
import Almanac.Rule.Increment

/-!
# Units of a frequency

Every frequency cuts civil time into units: seconds, minutes, hours, days, weeks from the first day
of the week on, months, years. This file fixes

* **units are numbered** (`Frequency.unitIndex`), and the numbers keep time order: what lies in an
  earlier unit is earlier (`stamp_lt_of_unitIndex_lt`);
* moving on by so many units raises the number by as many (`unitIndex_of_advance?`), and is possible
  as long as it stays before a unit that the calendar reaches (`advance?_isSome_of_lt`);
* so the increments of a rule lie in ascending units, `Rule.interval` apart
  (`unitIndex_of_incrementStart?`), and no increment is missing before one that has a start
  (`incrementStart?_isSome_of_le`);
* **skipping ahead stops at the last increment before the target** (`incrementsBefore_spec`): the
  guess that it starts from falls short by at least one unit.
-/

namespace Almanac

/-! ## 1. Units -/

namespace Frequency

/-- The number of the unit that a civil time lies in. Weeks begin on `weekStart`. -/
def unitIndex (f : Frequency) (weekStart : Weekday) (c : Civil) : Int :=
  match f with
  | secondly => c.stamp
  | minutely => c.stamp / 60
  | hourly => c.stamp / 3600
  | daily => c.date.day
  | weekly => (c.date.day + 5 - weekStart.index) / 7
  | monthly => c.date.monthIndex
  | yearly => c.date.year

/-- **What lies in an earlier unit is earlier.** -/
theorem stamp_lt_of_unitIndex_lt {f : Frequency} {weekStart : Weekday} {a b : Civil}
    (h : f.unitIndex weekStart a < f.unitIndex weekStart b) : a.stamp < b.stamp := by
  cases f with
  | secondly => exact h
  | minutely => simp only [unitIndex] at h; omega
  | hourly => simp only [unitIndex] at h; omega
  | daily => simp only [unitIndex, Civil.day_date] at h; omega
  | weekly => simp only [unitIndex, Civil.day_date] at h; omega
  | monthly =>
    have := Date.day_lt_of_monthIndex_lt h
    rw [Civil.day_date, Civil.day_date] at this
    omega
  | yearly =>
    have : a.date.day < b.date.day := by
      refine Int.not_le.mp fun hd => ?_
      have := Date.year_le_of_day_le hd
      simp only [unitIndex] at h
      omega
    rw [Civil.day_date, Civil.day_date] at this
    omega

/-- From a day on, units are told by the date alone. -/
theorem unitIndex_eq_of_date_eq {f : Frequency} {weekStart : Weekday} {a b : Civil}
    (hf : daily.rank ≤ f.rank) (h : a.date = b.date) :
    f.unitIndex weekStart a = f.unitIndex weekStart b := by
  cases f with
  | secondly => simp [rank] at hf
  | minutely => simp [rank] at hf
  | hourly => simp [rank] at hf
  | daily => simp only [unitIndex, h]
  | weekly => simp only [unitIndex, h]
  | monthly => simp only [unitIndex, h]
  | yearly => simp only [unitIndex, h]

/-- **Moving on by so many units raises the number of the unit by as many.** -/
theorem unitIndex_of_advance? {f : Frequency} (weekStart : Weekday) {c d : Civil} {units : Nat}
    (h : f.advance? c units = some d) :
    f.unitIndex weekStart d = f.unitIndex weekStart c + units := by
  cases f with
  | secondly => exact Civil.stamp_of_addSeconds? h
  | minutely =>
    have := @Civil.stamp_of_addSeconds? c d (60 * units) (by simpa [advance?] using h)
    simp only [unitIndex]
    omega
  | hourly =>
    have := @Civil.stamp_of_addSeconds? c d (3600 * units) (by simpa [advance?] using h)
    simp only [unitIndex]
    omega
  | daily =>
    have := @Civil.stamp_of_addSeconds? c d (86400 * units) (by simpa [advance?] using h)
    simp only [unitIndex, Civil.day_date]
    omega
  | weekly =>
    have := @Civil.stamp_of_addSeconds? c d (604800 * units) (by simpa [advance?] using h)
    simp only [unitIndex, Civil.day_date]
    omega
  | monthly => exact Date.monthIndex_of_addMonths? (Civil.date_of_addMonths? h)
  | yearly =>
    have := Date.monthIndex_of_addMonths? (Civil.date_of_addMonths? h)
    simp only [unitIndex, Date.year_eq_monthIndex_div]
    omega

theorem advance?_zero (f : Frequency) (c : Civil) : f.advance? c 0 = some c := by
  cases f <;> simp [advance?, Civil.addSeconds?]

/-- A step of months that ends before a month of the calendar has a civil time. -/
theorem addMonths?_isSome_of_lt {c t : Civil} {months : Nat}
    (h : (c.date.monthIndex + months) / 12 ≤ t.date.year) : (c.addMonths? months).isSome := by
  have low := c.date.year_within.1
  have high := t.date.year_within.2
  rw [c.date.year_eq_monthIndex_div] at low
  rw [Civil.addMonths?, Option.isSome_map]
  exact Date.addMonths?_isSome (by omega) (by omega)

/-- **As long as it stays before a unit that the calendar reaches, moving on has a result.** -/
theorem advance?_isSome_of_lt {f : Frequency} {weekStart : Weekday} {c t : Civil} {units : Nat}
    (h : f.unitIndex weekStart c + units < f.unitIndex weekStart t) :
    (f.advance? c units).isSome := by
  have last := t.le_last
  cases f with
  | secondly =>
    simp only [unitIndex] at h
    exact Civil.addSeconds?_isSome (by omega)
  | minutely =>
    simp only [unitIndex] at h
    exact @Civil.addSeconds?_isSome c (60 * units) (by omega)
  | hourly =>
    simp only [unitIndex] at h
    exact @Civil.addSeconds?_isSome c (3600 * units) (by omega)
  | daily =>
    simp only [unitIndex, Civil.day_date] at h
    exact @Civil.addSeconds?_isSome c (86400 * units) (by omega)
  | weekly =>
    simp only [unitIndex, Civil.day_date] at h
    exact @Civil.addSeconds?_isSome c (604800 * units) (by omega)
  | monthly =>
    simp only [unitIndex] at h
    refine addMonths?_isSome_of_lt (t := t) ?_
    rw [t.date.year_eq_monthIndex_div]
    omega
  | yearly =>
    simp only [unitIndex, c.date.year_eq_monthIndex_div] at h
    exact @addMonths?_isSome_of_lt c t (12 * units) (by omega)

/-- Counted units are none or more, and at most one away from what the numbers of the units are
    apart. -/
theorem unitsBetween_bounds (f : Frequency) (weekStart : Weekday) {start stop : Civil}
    (h : start < stop) :
    0 ≤ f.unitsBetween start stop ∧
      f.unitsBetween start stop ≤ f.unitIndex weekStart stop - f.unitIndex weekStart start + 1 ∧
      f.unitIndex weekStart stop - f.unitIndex weekStart start ≤ f.unitsBetween start stop + 1 := by
  have low := Civil.secondsSince_nonneg h
  have high := stop.secondsSince_le start
  have least := stop.le_secondsSince start
  have stamps := Civil.stamp_le_of_lt h
  have months : start.date.monthIndex ≤ stop.date.monthIndex := by
    refine Date.monthIndex_le_of_day_le ?_
    rw [Civil.day_date, Civil.day_date]
    omega
  have nonneg : 0 ≤ stop.date.monthIndex - start.date.monthIndex := by omega
  cases f with
  | secondly => exact ⟨low, high, least⟩
  | minutely =>
    simp only [unitsBetween, unitIndex, Int.tdiv_eq_ediv_of_nonneg low]
    omega
  | hourly =>
    simp only [unitsBetween, unitIndex, Int.tdiv_eq_ediv_of_nonneg low]
    omega
  | daily =>
    simp only [unitsBetween, unitIndex, Civil.day_date, Int.tdiv_eq_ediv_of_nonneg low]
    omega
  | weekly =>
    simp only [unitsBetween, unitIndex, Civil.day_date, Int.tdiv_eq_ediv_of_nonneg low]
    omega
  | monthly =>
    simp only [unitsBetween, unitIndex]
    omega
  | yearly =>
    simp only [unitsBetween, unitIndex, Int.tdiv_eq_ediv_of_nonneg nonneg,
      Date.year_eq_monthIndex_div]
    omega

end Frequency

/-! ## 2. Increments of a rule -/

namespace Rule

variable {r : Rule} {origin : Civil}

/-- The number of the unit that a civil time lies in, for a rule. -/
def unitIndex (r : Rule) (c : Civil) : Int := r.frequency.unitIndex r.weekStart c

/-- What lies in an earlier unit of a rule is earlier. -/
theorem stamp_lt_of_unitIndex_lt {a b : Civil} (h : r.unitIndex a < r.unitIndex b) :
    a.stamp < b.stamp :=
  Frequency.stamp_lt_of_unitIndex_lt h

/-- The first increment starts where the series does. -/
theorem incrementStart?_zero (r : Rule) (origin : Civil) :
    r.incrementStart? origin 0 = some origin := by
  rw [incrementStart?, Nat.zero_mul, Frequency.advance?_zero]

/-- **The increments of a rule are its interval of units apart.** -/
theorem unitIndex_of_incrementStart? {c : Civil} {k : Nat}
    (h : r.incrementStart? origin k = some c) :
    r.unitIndex c = r.unitIndex origin + (k * r.interval : Nat) :=
  Frequency.unitIndex_of_advance? r.weekStart h

/-- Later increments lie in later units. -/
theorem unitIndex_lt_of_lt {c d : Civil} {i j : Nat} (h : i < j)
    (hc : r.incrementStart? origin i = some c) (hd : r.incrementStart? origin j = some d) :
    r.unitIndex c < r.unitIndex d := by
  rw [unitIndex_of_incrementStart? hc, unitIndex_of_incrementStart? hd]
  have := Nat.mul_lt_mul_of_pos_right h r.one_le_interval
  omega

/-- **No increment is missing before one that has a start.** -/
theorem incrementStart?_isSome_of_le {d : Civil} {i j : Nat} (h : i ≤ j)
    (hd : r.incrementStart? origin j = some d) : (r.incrementStart? origin i).isSome := by
  rcases Nat.lt_or_eq_of_le h with hij | rfl
  · have before : r.frequency.unitIndex r.weekStart origin + (i * r.interval : Nat) <
        r.frequency.unitIndex r.weekStart d := by
      have := unitIndex_of_incrementStart? hd
      unfold unitIndex at this
      rw [this]
      have := Nat.mul_lt_mul_of_pos_right hij r.one_le_interval
      omega
    exact Frequency.advance?_isSome_of_lt before
  · rw [hd]
    rfl

/-- Behind an increment that is missing all are. -/
theorem incrementStart?_eq_none_of_le {i j : Nat} (h : i ≤ j)
    (hi : r.incrementStart? origin i = none) : r.incrementStart? origin j = none := by
  cases hj : r.incrementStart? origin j with
  | none => rfl
  | some d =>
    have := incrementStart?_isSome_of_le h hj
    rw [hi] at this
    cases this

/-- Increments start in ascending order. -/
theorem stamp_lt_of_lt {c d : Civil} {i j : Nat} (h : i < j)
    (hc : r.incrementStart? origin i = some c) (hd : r.incrementStart? origin j = some d) :
    c.stamp < d.stamp :=
  stamp_lt_of_unitIndex_lt (unitIndex_lt_of_lt h hc hd)

theorem stamp_le_of_le {c d : Civil} {i j : Nat} (h : i ≤ j)
    (hc : r.incrementStart? origin i = some c) (hd : r.incrementStart? origin j = some d) :
    c.stamp ≤ d.stamp := by
  rcases Nat.lt_or_eq_of_le h with lt | rfl
  · exact Int.le_of_lt (stamp_lt_of_lt lt hc hd)
  · cases hc.symm.trans hd
    exact Int.le_refl _

/-- No increment starts before the series does. -/
theorem origin_le {c : Civil} {i : Nat} (hc : r.incrementStart? origin i = some c) :
    origin.stamp ≤ c.stamp :=
  stamp_le_of_le i.zero_le (r.incrementStart?_zero origin) hc

/-- From an increment before the target on, single steps end at the last one before it. -/
theorem lastBefore_spec {target c : Civil} {k : Nat} (hc : r.incrementStart? origin k = some c)
    (lt : c < target) :
    (∃ d, r.incrementStart? origin (r.lastBefore origin target k) = some d ∧ d < target) ∧
      ∀ d, r.incrementStart? origin (r.lastBefore origin target k + 1) = some d → target ≤ d := by
  fun_induction r.lastBefore origin target k generalizing c with
  | case1 k h => exact ⟨⟨c, hc, lt⟩, fun d hd => by rw [h] at hd; cases hd⟩
  | case2 k next h hlt ih => exact ih h hlt
  | case3 k next h hge =>
    refine ⟨⟨c, hc, lt⟩, fun d hd => ?_⟩
    rw [h] at hd
    cases hd
    rw [Civil.le_iff_rank]
    rw [Civil.lt_iff_rank] at hge
    omega

/-- The guess that skipping ahead starts from is an increment before the target. -/
theorem guess_lt_target {target : Civil} (h : origin < target) :
    ∃ c, r.incrementStart? origin
        ((r.frequency.unitsBetween origin target).tdiv r.interval - 2).toNat = some c ∧
      c < target := by
  obtain ⟨low, high, -⟩ := r.frequency.unitsBetween_bounds r.weekStart h
  rw [Int.tdiv_eq_ediv_of_nonneg low]
  generalize hg : (r.frequency.unitsBetween origin target / r.interval - 2).toNat = guess
  by_cases zero : guess = 0
  · rw [zero, incrementStart?_zero]
    exact ⟨origin, rfl, h⟩
  · have short : (guess * r.interval : Nat) + 2 * r.interval ≤
        r.frequency.unitsBetween origin target := by
      have whole := Int.ediv_mul_le (r.frequency.unitsBetween origin target)
        (show (r.interval : Int) ≠ 0 by have := r.one_le_interval; omega)
      have eq : r.frequency.unitsBetween origin target / r.interval = guess + 2 := by omega
      rw [eq, Int.add_mul] at whole
      rw [Int.natCast_mul]
      omega
    have before : r.frequency.unitIndex r.weekStart origin + (guess * r.interval : Nat) <
        r.frequency.unitIndex r.weekStart target := by
      have := r.one_le_interval
      omega
    obtain ⟨c, hc⟩ := Option.isSome_iff_exists.mp (Frequency.advance?_isSome_of_lt before)
    have earlier : r.unitIndex c < r.unitIndex target := by
      rw [unitIndex_of_incrementStart? hc]
      exact before
    exact ⟨c, hc, Civil.lt_of_stamp_lt (stamp_lt_of_unitIndex_lt earlier)⟩

/-- **Skipping ahead stops at the last increment that starts before the target.** -/
theorem incrementsBefore_spec {target : Civil} (h : origin < target) :
    (∃ c, r.incrementStart? origin (r.incrementsBefore origin target) = some c ∧ c < target) ∧
      ∀ d, r.incrementStart? origin (r.incrementsBefore origin target + 1) = some d →
        target ≤ d := by
  obtain ⟨c, hc, lt⟩ := guess_lt_target (r := r) h
  have not : ¬ target ≤ origin := by
    rw [Civil.le_iff_rank]
    rw [Civil.lt_iff_rank] at h
    omega
  unfold incrementsBefore
  rw [if_neg not]
  exact lastBefore_spec hc lt

end Rule

end Almanac
