import Almanac.Rule.Basic

/-!
# Increments

A rule visits its seed moved on by 0, 1, 2, … intervals. This file fixes

* **every increment is counted from the seed** (`Rule.incrementStart?`), never from the increment
  before, so a seed on the 31st is back on the 31st after a short month;
* the calendar ends, and so do the increments: none with a number from `horizon` on has a start
  (`incrementStart?_lt_horizon`). This is what every walk over increments ends by;
* `Rule.incrementsBefore` finds the last increment that starts before a target: a guess from the
  time in between, two increments short to be safe, and then single steps.
-/

namespace Almanac

/-- The number of civil times in the calendar: no walk makes that many steps. -/
abbrev horizon : Nat := 16544868105600

/-! ## 1. Moving on by units -/

namespace Frequency

/-- The civil time so many units of a frequency later. -/
def advance? (f : Frequency) (c : Civil) (units : Nat) : Option Civil :=
  match f with
  | secondly => c.addSeconds? units
  | minutely => c.addSeconds? (60 * units)
  | hourly => c.addSeconds? (3600 * units)
  | daily => c.addSeconds? (86400 * units)
  | weekly => c.addSeconds? (604800 * units)
  | monthly => c.addMonths? units
  | yearly => c.addMonths? (12 * units)

/-- Whole units of a frequency between two civil times. Months and years are counted by their
numbers alone. -/
def unitsBetween (f : Frequency) (start stop : Civil) : Int :=
  let seconds := stop.secondsSince start
  let months := stop.date.monthIndex - start.date.monthIndex
  match f with
  | secondly => seconds
  | minutely => seconds.tdiv 60
  | hourly => seconds.tdiv 3600
  | daily => seconds.tdiv 86400
  | weekly => seconds.tdiv 604800
  | monthly => months
  | yearly => months.tdiv 12

end Frequency

/-! ## 2. The reach of the calendar -/

theorem Date.le_of_addMonths? {d e : Date} {months : Int} (h : d.addMonths? months = some e) :
    months ≤ 6291480 := by
  have low := d.year_bounds.2
  have first := d.first_le
  have last := e.le_last
  simp only [addMonths?, ofFields?] at h
  split at h
  · have day := ofDay?_eq_some_iff.1 h
    simp only [monthIndex, yearStart, firstDay, lastDay] at *
    omega
  · simp at h

theorem Civil.le_stampAfter (c : Civil) (seconds : Int) :
    c.stamp + seconds ≤ c.stampAfter seconds := by
  simp only [stampAfter]
  split <;> omega

theorem Civil.lt_horizon_of_addSeconds? {c d : Civil} {seconds : Nat}
    (h : c.addSeconds? seconds = some d) : seconds < horizon := by
  have first := c.first_le
  have last := d.le_last
  simp only [addSeconds?] at h
  split at h
  · simp only [horizon]; omega
  · simp only [ofStamp?] at h
    split at h
    · rename_i hs
      have within : c.stampAfter seconds ≤ 8272434095999 := hs.2
      have := c.le_stampAfter seconds
      simp only [firstStamp, horizon] at *
      omega
    · simp at h

theorem Civil.lt_horizon_of_addMonths? {c d : Civil} {months : Nat}
    (h : c.addMonths? months = some d) : months < horizon := by
  simp only [addMonths?, Option.map_eq_some_iff] at h
  obtain ⟨e, he, -⟩ := h
  have := Date.le_of_addMonths? he
  simp only [horizon]
  omega

/-- No civil time is as many units away from another as the calendar has civil times. -/
theorem Frequency.lt_horizon_of_advance? {f : Frequency} {c d : Civil} {units : Nat}
    (h : f.advance? c units = some d) : units < horizon := by
  cases f <;> simp only [advance?] at h
  · exact Civil.lt_horizon_of_addSeconds? h
  · have := @Civil.lt_horizon_of_addSeconds? c d (60 * units) (by simpa using h)
    omega
  · have := @Civil.lt_horizon_of_addSeconds? c d (3600 * units) (by simpa using h)
    omega
  · have := @Civil.lt_horizon_of_addSeconds? c d (86400 * units) (by simpa using h)
    omega
  · have := @Civil.lt_horizon_of_addSeconds? c d (604800 * units) (by simpa using h)
    omega
  · exact Civil.lt_horizon_of_addMonths? h
  · have := @Civil.lt_horizon_of_addMonths? c d (12 * units) (by simpa using h)
    omega

/-! ## 3. Increments of a rule -/

namespace Rule

/-- The start of an increment: the seed moved on by so many intervals. -/
def incrementStart? (r : Rule) (origin : Civil) (k : Nat) : Option Civil :=
  r.frequency.advance? origin (k * r.interval)

/-- **Only finitely many increments have a start.** -/
theorem incrementStart?_lt_horizon {r : Rule} {origin c : Civil} {k : Nat}
    (h : r.incrementStart? origin k = some c) : k < horizon := by
  have := Frequency.lt_horizon_of_advance? h
  have := Nat.le_mul_of_pos_right k r.one_le_interval
  omega

/-- The last increment from `k` on before one that does not start before the target. -/
def lastBefore (r : Rule) (origin target : Civil) (k : Nat) : Nat :=
  match h : r.incrementStart? origin (k + 1) with
  | none => k
  | some next => if next < target then r.lastBefore origin target (k + 1) else k
termination_by horizon - k
decreasing_by have := incrementStart?_lt_horizon h; omega

/-- The last increment that starts before a target, or the first one if none does. -/
def incrementsBefore (r : Rule) (origin target : Civil) : Nat :=
  if target ≤ origin then 0
  else
    let guess := (r.frequency.unitsBetween origin target).tdiv r.interval - 2
    r.lastBefore origin target guess.toNat

end Rule

end Almanac
