import Almanac.Rule.Vocabulary
import Almanac.Settings
import Almanac.Temporal.Basic

/-!
# Recurrence rules

A rule repeats a seed. This file fixes

* **the parts of a rule** (`RuleParts`): an interval, at most one end (`RuleEnd`: a number of
  occurrences or a last value), and a list for each BY part. The order of a list is the order in
  which it was written;
* **what makes the parts a rule** (`RuleParts.fault?`): every value is in the range of its part,
  and a skip policy comes with a scale. A rule carries the proof, so its interval is at least one;
* two rules are the same (`Rule.same`) when they have the same frequency and parts. The settings a
  rule was built with are no part of what it is.
-/

namespace Almanac

/-! ## 1. Parts -/

/-- What ends a series. -/
inductive RuleEnd where
  /-- A number of occurrences. -/
  | count (n : Nat)
  /-- A value that no occurrence goes beyond. -/
  | last (value : Temporal)
deriving DecidableEq, Inhabited

/-- The parts of a rule, its frequency apart. -/
structure RuleParts where
  interval : Option Nat
  ending : Option RuleEnd
  weekStart : Option Weekday
  scale : Option Scale
  skip : Option Skip
  months : List Nat
  weekNumbers : List Int
  yearDays : List Int
  monthDays : List Int
  days : List DayEntry
  hours : List Nat
  minutes : List Nat
  seconds : List Nat
  positions : List Int
  /-- Parts this library gives no meaning, by name in ascending order. -/
  extras : List (String × String)
deriving DecidableEq

namespace RuleParts

/-- No parts at all. -/
def none : RuleParts :=
  ⟨.none, .none, .none, .none, .none, [], [], [], [], [], [], [], [], [], []⟩

instance : Inhabited RuleParts := ⟨none⟩

/-- The number of occurrences that ends the series, if that is what ends it. -/
def count? (p : RuleParts) : Option Nat :=
  match p.ending with
  | some (.count n) => some n
  | _ => .none

/-- The last value, if that is what ends the series. -/
def last? (p : RuleParts) : Option Temporal :=
  match p.ending with
  | some (.last value) => some value
  | _ => .none

/-- The named value put into ascending names; it takes the place of one with the same name. -/
def putExtra (name value : String) : List (String × String) → List (String × String)
  | [] => [(name, value)]
  | (other, kept) :: rest =>
    if name < other then (name, value) :: (other, kept) :: rest
    else if name = other then (name, value) :: rest
    else (other, kept) :: putExtra name value rest

/-! ## 2. Ranges -/

/-- The first value outside a range, as a fault. -/
def outside (part : RulePart) (range : ValueRange) (values : List Int) : Option Fault :=
  (values.find? (!range.contains ·)).map fun value => .outOfRange part value range

/-- The value of a list of natural numbers outside a range, as a fault. -/
def outsideNat (part : RulePart) (range : ValueRange) (values : List Nat) : Option Fault :=
  outside part range (values.map Int.ofNat)

/-- The checks on the parts, in the order in which their faults are told. -/
def checks (p : RuleParts) : List (Option Fault) :=
  [outsideNat .bySecond (.between 0 60) p.seconds,
    outsideNat .byMinute (.between 0 59) p.minutes,
    outsideNat .byHour (.between 0 23) p.hours,
    outsideNat .byMonth (.between 1 12) p.months,
    outside .byMonthDay (.eitherSide 31) p.monthDays,
    outside .byYearDay (.eitherSide 366) p.yearDays,
    outside .byWeekNo (.eitherSide 53) p.weekNumbers,
    outside .bySetPos (.eitherSide 366) p.positions,
    outside .byDay (.eitherSide 53) ((p.days.map DayEntry.ordinal).filter (· ≠ 0)),
    outsideNat .interval (.between 1 Numeral.unsignedMax) p.interval.toList,
    outsideNat .count (.between 1 Numeral.unsignedMax) p.count?.toList,
    if p.skip.isSome ∧ p.scale.isNone then some .skipWithoutScale else .none]

/-- The first reason why the parts are no rule's, if there is one. -/
def fault? (p : RuleParts) : Option Fault :=
  p.checks.findSome? id

/-- Without parts there is nothing to check. -/
theorem fault?_none : none.fault? = .none := by decide

/-- Whether two lists of parts are the same; a last value counts by kind and by what it denotes. -/
def same (p q : RuleParts) : Bool :=
  let sameEnd := match p.ending, q.ending with
    | .none, .none => true
    | some (.count m), some (.count n) => m = n
    | some (.last a), some (.last b) => a.same b
    | _, _ => false
  sameEnd && { p with ending := .none } = { q with ending := .none }

end RuleParts

/-! ## 3. Rules -/

/-- A recurrence rule. -/
structure Rule where
  frequency : Frequency
  parts : RuleParts
  settings : Settings
  valid : parts.fault? = none

namespace Rule

/-- The rule with a frequency and parts, or the first reason why there is none. -/
def build (frequency : Frequency) (parts : RuleParts) (settings : Settings) : Except Fault Rule :=
  match h : parts.fault? with
  | none => .ok ⟨frequency, parts, settings, h⟩
  | some fault => .error fault

/-- Units of the frequency from one increment to the next. -/
def interval (r : Rule) : Nat := r.parts.interval.getD 1

/-- The day on which weeks begin. -/
def weekStart (r : Rule) : Weekday := r.parts.weekStart.getD .monday

/-- The skip policy. -/
def skip (r : Rule) : Skip := r.parts.skip.getD .leaveOut

/-- Whether two rules have the same frequency and parts. -/
def same (r s : Rule) : Bool :=
  r.frequency = s.frequency && r.parts.same s.parts

/-- No check on the parts of a rule has anything to tell. -/
theorem eq_none_of_mem_checks (r : Rule) {check : Option Fault} (h : check ∈ r.parts.checks) :
    check = none := by
  have := r.valid
  rw [RuleParts.fault?, List.findSome?_eq_none_iff] at this
  simpa using this check h

/-- An interval is at least one unit. -/
theorem one_le_interval (r : Rule) : 1 ≤ r.interval := by
  have check : RuleParts.outsideNat .interval (.between 1 Numeral.unsignedMax)
      r.parts.interval.toList = none := r.eq_none_of_mem_checks (by simp [RuleParts.checks])
  unfold interval
  cases h : r.parts.interval with
  | none => simp
  | some n =>
    rw [h] at check
    simp [RuleParts.outsideNat, RuleParts.outside, ValueRange.contains] at check
    simp
    omega

end Rule

end Almanac
