import Almanac.Temporal.Basic

/-!
# Comparing values of different kinds

A comparator reads dates and floating times in a zone of its own and compares either whole seconds,
where a leap second counts as the second it follows, or the dates that its zone's calendar shows.
Every comparison goes through one key (`Comparator.key`), so a comparator is a total preorder by
construction.
-/

namespace Almanac

/-- How finely a comparator looks. -/
inductive Precision where
  | seconds
  | days
deriving DecidableEq, Repr, Inhabited

/-- A way to compare values of any kind. -/
structure Comparator where
  zone : Zone
  precision : Precision
deriving DecidableEq, Inhabited

namespace Comparator

/-- The comparator to the second that reads in a value's zone. -/
def toTheSecond (t : Temporal) : Comparator :=
  ⟨t.zoneOrUtc, .seconds⟩

/-- The comparator of a series that starts at a seed: it reads in the seed's zone, and looks at days
    when the seed is a date. -/
def forSeed (seed : Temporal) : Comparator :=
  ⟨seed.zoneOrUtc, if seed.isDateTime then .seconds else .days⟩

/-- The date of a value: instants are seen from the comparator's zone. -/
def dateOf (c : Comparator) : Temporal → Date
  | .date d => d
  | .floating civil => civil.date
  | .utc i => (c.zone.localTime i).date
  | .zoned z => (c.zone.localTime z.instant).date

/-- The number by which a value is compared. -/
def key (c : Comparator) (t : Temporal) : Int :=
  match c.precision with
  | .seconds => (t.instantIn c.zone).stamp
  | .days => (c.dateOf t).day

/-- How two values compare. -/
def compare (c : Comparator) (a b : Temporal) : Ordering :=
  compareOn c.key a b

/-- Whether a value comes before another. -/
def before (c : Comparator) (a b : Temporal) : Bool :=
  c.key a < c.key b

/-- Whether a value comes after another. -/
def after (c : Comparator) (a b : Temporal) : Bool :=
  c.key b < c.key a

/-- Whether two values coincide. -/
def equal (c : Comparator) (a b : Temporal) : Bool :=
  c.key a = c.key b

/-- The earlier of two values, the first one when they coincide. -/
def earlier (c : Comparator) (a b : Temporal) : Temporal :=
  if c.after a b then b else a

/-- The later of two values, the first one when they coincide. -/
def later (c : Comparator) (a b : Temporal) : Temporal :=
  if c.before a b then b else a

/-- Values in the order of a comparator; those that coincide keep their places. -/
def sort (c : Comparator) (ts : List Temporal) : List Temporal :=
  ts.mergeSort fun a b => c.key a ≤ c.key b

end Comparator

end Almanac
