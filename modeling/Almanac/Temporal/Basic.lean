import Almanac.Zone.GapPolicy

/-!
# Temporal values

A value of the calendar is one of four: a plain date, a civil time that floats free of any zone, an
instant in UTC, or an instant seen in a zone. This file fixes

* **a zoned value is its instant and its zone** (`Zoned`): what the zone's clocks show then is
  derived, so the two readings can never disagree;
* `Temporal.instantIn` reads every value as an instant, dates (at midnight) and floating times in a
  zone that the caller names;
* `Temporal.bindTo` gives a floating time a zone, and `Temporal.inFrameOf` and `Temporal.withCivil`
  go to the civil time of another value's frame and back;
* the natural order (`Temporal.compare`) goes by the instant in UTC, and then by kind. Equality is
  finer on kinds and coarser on zones: values are equal when they are of one kind and denote the
  same date, civil time or instant.
-/

namespace Almanac

/-- An instant seen in a zone. -/
structure Zoned where
  instant : Civil
  zone : Zone
deriving DecidableEq, Inhabited

namespace Zoned

/-- Seconds that the zone's clocks are ahead of UTC at the instant. -/
def offset (value : Zoned) : Int :=
  value.zone.offsetAt value.instant

/-- What the zone's clocks show at the instant. -/
def localTime (value : Zoned) : Civil :=
  value.zone.localTime value.instant

end Zoned

/-- A date, or a civil time in one of three frames. -/
inductive Temporal where
  /-- A date without a time of day. -/
  | date (date : Date)
  /-- A civil time in no zone. -/
  | floating (civil : Civil)
  /-- An instant. -/
  | utc (instant : Civil)
  /-- An instant seen in a zone. -/
  | zoned (value : Zoned)
deriving DecidableEq, Inhabited

namespace Temporal

/-! ## 1. Readings -/

/-- The civil time in the value's own frame; a date is read at midnight. -/
def localTime : Temporal → Civil
  | date d => Civil.midnight d
  | floating c => c
  | utc i => i
  | zoned z => z.localTime

/-- The date in the value's own frame. -/
def toDate (t : Temporal) : Date :=
  t.localTime.date

/-- Whether the value has a time of day. -/
def isDateTime : Temporal → Bool
  | date _ => false
  | _ => true

/-- Whether the value stands in no frame of its own. -/
def isFloating : Temporal → Bool
  | date _ => true
  | floating _ => true
  | _ => false

/-- Whether the value is given in universal time, or zoned in it. -/
def isUniversal : Temporal → Bool
  | utc _ => true
  | zoned z => z.zone.isUniversal
  | _ => false

/-- The zone of a zoned value. -/
def zone? : Temporal → Option Zone
  | zoned z => some z.zone
  | _ => none

/-- The zone of a zoned value, and UTC for every other. -/
def zoneOrUtc (t : Temporal) : Zone :=
  t.zone?.getD Zone.utc

/-- The instant a value denotes, where dates and floating times are read in `zone`. -/
def instantIn (zone : Zone) : Temporal → Civil
  | utc i => i
  | zoned z => z.instant
  | date d => zone.settle (Civil.midnight d)
  | floating c => zone.settle c

/-! ## 2. Frames -/

/-- A floating time bound to a zone; every other value as it is. -/
def bindTo (zone : Zone) : Temporal → Temporal
  | floating c => zoned ⟨zone.settle c, zone⟩
  | t => t

/-- The civil time of a value in the frame of a seed. -/
def inFrameOf (t seed : Temporal) : Civil :=
  match seed with
  | date _ => Civil.midnight t.toDate
  | floating _ => t.localTime
  | utc _ => t.instantIn Zone.utc
  | zoned z => z.zone.localTime (t.instantIn z.zone)

/-- The value of the seed's kind with a civil time. In a gap of the seed's zone the policy decides
    whether there is one. -/
def withCivil (seed : Temporal) (policy : GapPolicy) (civil : Civil) : Option Temporal :=
  match seed with
  | date _ => some (date civil.date)
  | floating _ => some (floating civil)
  | utc _ => some (utc civil)
  | zoned z => (policy.resolve z.zone civil).map fun instant => zoned ⟨instant, z.zone⟩

/-! ## 3. Equality and the natural order -/

/-- Values of one kind that denote the same date, civil time or instant; zones do not count. -/
def same : Temporal → Temporal → Bool
  | date a, date b => a = b
  | floating a, floating b => a = b
  | utc a, utc b => a = b
  | zoned a, zoned b => a.instant = b.instant
  | _, _ => false

/-- The place of a kind among values that denote one instant. -/
def kindRank : Temporal → Nat
  | date _ => 0
  | floating _ => 1
  | utc _ => 2
  | zoned _ => 3

/-- The natural order: by the instant, dates and floating times read in UTC, and then by kind. -/
def compare (a b : Temporal) : Ordering :=
  compareLex (compareOn fun t => (t.instantIn Zone.utc).rank) (compareOn kindRank) a b

instance : Ord Temporal := ⟨compare⟩

end Temporal

end Almanac
