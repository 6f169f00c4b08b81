import Almanac.Rule.Increment

/-!
# Checked steps

On the way to the start of an increment its number is multiplied with the interval, and the product
is turned into seconds or months. Numbers of a fixed width have no room for every product. This file
fixes

* the start of an increment where each number on the way has to keep to its limit
  (`Rule.checkedStart?`);
* **the calendar is the narrowest of the limits** (`Rule.checkedStart?_eq`): no check on the way
  refuses an increment that the calendar has room for.
-/

namespace Almanac

/-! ## 1. Limits -/

/-- The largest number of 64 bits. -/
abbrev wordMax : Nat := 18446744073709551615

/-- The largest number of 64 bits, one of them for the sign. -/
abbrev signedWordMax : Nat := 9223372036854775807

/-- The seconds of the longest time that can be added at once. -/
abbrev longestSpan : Nat := 9223372036854775

/-- What the calendar has room for keeps to them all. -/
theorem horizon_le_limits :
    horizon ≤ longestSpan ∧ horizon ≤ signedWordMax ∧ horizon ≤ wordMax := by decide

/-- The number, if it keeps to a limit. -/
def upTo? (limit n : Nat) : Option Nat := Option.guard (· ≤ limit) n

/-- **A check does not show where whatever comes after it refuses all that it refuses.** -/
theorem upTo?_bind {α : Type} {limit n : Nat} {next : Nat → Option α}
    (h : ∀ a, next n = some a → n ≤ limit) : (upTo? limit n).bind next = next n := by
  by_cases within : n ≤ limit
  · rw [upTo?, Option.guard, if_pos (decide_eq_true within), Option.bind_some]
  · have refused : next n = none := Option.eq_none_iff_forall_ne_some.mpr fun a ha => within (h a ha)
    rw [upTo?, Option.guard, if_neg (by simpa using within), Option.bind_none, refused]

/-! ## 2. Moving on by units -/

namespace Civil

/-- The civil time so many units of so many seconds later, where the seconds have to keep to their
    limits. -/
def checkedAddSeconds? (c : Civil) (unit units : Nat) : Option Civil := do
  let seconds ← upTo? signedWordMax (unit * units)
  let span ← upTo? longestSpan seconds
  c.addSeconds? span

/-- The civil time so many months later, where the months have to keep to their limit. -/
def checkedAddMonths? (c : Civil) (months : Nat) : Option Civil := do
  let months ← upTo? Numeral.unsignedMax months
  c.addMonths? months

theorem checkedAddSeconds?_eq (c : Civil) (unit units : Nat) :
    c.checkedAddSeconds? unit units = c.addSeconds? (unit * units : Nat) := by
  have near : ∀ d, c.addSeconds? (unit * units : Nat) = some d → unit * units ≤ horizon :=
    fun d hd => Nat.le_of_lt (lt_horizon_of_addSeconds? hd)
  have span : (upTo? longestSpan (unit * units)).bind (fun n => c.addSeconds? n) =
      c.addSeconds? (unit * units : Nat) :=
    upTo?_bind fun d hd => Nat.le_trans (near d hd) horizon_le_limits.1
  refine (upTo?_bind fun d hd => ?_).trans span
  exact Nat.le_trans (near d (span.symm.trans hd)) horizon_le_limits.2.1

theorem checkedAddMonths?_eq (c : Civil) (months : Nat) :
    c.checkedAddMonths? months = c.addMonths? months := by
  refine upTo?_bind fun d hd => ?_
  obtain ⟨e, he, -⟩ := Option.map_eq_some_iff.mp hd
  have := Date.le_of_addMonths? he
  simp only [Numeral.unsignedMax]
  omega

end Civil

namespace Frequency

/-- The civil time so many units of a frequency later, where each number on the way has to keep to
    its limit. -/
def checkedAdvance? (f : Frequency) (c : Civil) (units : Nat) : Option Civil :=
  match f with
  | secondly => c.checkedAddSeconds? 1 units
  | minutely => c.checkedAddSeconds? 60 units
  | hourly => c.checkedAddSeconds? 3600 units
  | daily => c.checkedAddSeconds? 86400 units
  | weekly => c.checkedAddSeconds? 604800 units
  | monthly => c.checkedAddMonths? units
  | yearly => (upTo? signedWordMax (12 * units)).bind c.checkedAddMonths?

theorem checkedAdvance?_eq (f : Frequency) (c : Civil) (units : Nat) :
    f.checkedAdvance? c units = f.advance? c units := by
  cases f with
  | secondly => rw [checkedAdvance?, Civil.checkedAddSeconds?_eq, Nat.one_mul, advance?]
  | minutely => exact c.checkedAddSeconds?_eq 60 units
  | hourly => exact c.checkedAddSeconds?_eq 3600 units
  | daily => exact c.checkedAddSeconds?_eq 86400 units
  | weekly => exact c.checkedAddSeconds?_eq 604800 units
  | monthly => exact c.checkedAddMonths?_eq units
  | yearly =>
    refine (upTo?_bind fun d hd => ?_).trans (c.checkedAddMonths?_eq (12 * units))
    have near := Civil.lt_horizon_of_addMonths? ((c.checkedAddMonths?_eq _).symm.trans hd)
    exact Nat.le_trans (Nat.le_of_lt near) horizon_le_limits.2.1

end Frequency

/-! ## 3. Increments of a rule -/

namespace Rule

/-- The start of an increment, where each number on the way has to keep to its limit. -/
def checkedStart? (r : Rule) (origin : Civil) (k : Nat) : Option Civil := do
  let product ← upTo? wordMax (k * r.interval)
  let units ← upTo? signedWordMax product
  r.frequency.checkedAdvance? origin units

/-- **The calendar is the narrowest of the limits.** -/
theorem checkedStart?_eq (r : Rule) (origin : Civil) :
    r.checkedStart? origin = r.incrementStart? origin := by
  funext k
  have near : ∀ c, r.incrementStart? origin k = some c → k * r.interval ≤ horizon :=
    fun c hc => Nat.le_of_lt (Frequency.lt_horizon_of_advance? hc)
  have units : (upTo? signedWordMax (k * r.interval)).bind (r.frequency.checkedAdvance? origin) =
      r.incrementStart? origin k := by
    refine (upTo?_bind fun c hc => ?_).trans (r.frequency.checkedAdvance?_eq origin _)
    have held := near c ((r.frequency.checkedAdvance?_eq origin _).symm.trans hc)
    exact Nat.le_trans held horizon_le_limits.2.1
  refine (upTo?_bind fun c hc => ?_).trans units
  exact Nat.le_trans (near c (units.symm.trans hc)) horizon_le_limits.2.2

end Rule

end Almanac
