import Almanac.Calendar.Civil

/-!
# Time zones

A zone says how far its clocks are ahead of UTC at each instant. This file fixes

* **a zone is its offset at first and its list of changes** (`Zone.transitions`), each an instant
  and the offset from that instant on; after the last change the last offset stays;
* `Zone.offsetAt` reads the offset in force at an instant;
* `Zone.readings` goes the other way: the instants at which the zone's clocks show a given civil
  time, in time order. There is one, as a rule; there are two in an hour that clocks repeat, and
  none in an hour that they jump over.

Instants are stamps of UTC civil time, offsets are seconds east of UTC.
-/

namespace Almanac

/-- From this instant on the zone's clocks are ahead of UTC by this offset. -/
structure Transition where
  instant : Int
  offset : Int
deriving DecidableEq, Repr, Inhabited

/-- A time zone. -/
structure Zone where
  name : String
  initial : Int
  transitions : List Transition
deriving DecidableEq, Repr, Inhabited

namespace Zone

/-! ## 1. From instants to local time -/

/-- The offset in force at a stamp, where `offset` is in force until the first transition. -/
def offsetFrom (offset : Int) : List Transition → (stamp : Int) → Int
  | [], _ => offset
  | t :: rest, stamp => if stamp < t.instant then offset else offsetFrom t.offset rest stamp

/-- The zone's offset at an instant. -/
def offsetAt (zone : Zone) (instant : Civil) : Int :=
  offsetFrom zone.initial zone.transitions instant.stamp

/-- What the zone's clocks show at an instant, if the calendar reaches that far. -/
def shown? (zone : Zone) (instant : Civil) : Option Civil :=
  instant.shift? (zone.offsetAt instant)

/-- What the zone's clocks show at an instant; the ends of the calendar stand for what lies past
    them. -/
def localTime (zone : Zone) (instant : Civil) : Civil :=
  instant.shift (zone.offsetAt instant)

/-! ## 2. From local time to instants -/

/-- The stamps that show as `shown`, where `offset` is in force from `since` (from ever, if there is
    no such stamp) until the first transition. -/
def readingsFrom (since : Option Int) (offset : Int) : List Transition → (shown : Int) → List Int
  | [], shown => if since.all (· ≤ shown - offset) then [shown - offset] else []
  | t :: rest, shown =>
    let later := readingsFrom (some t.instant) t.offset rest shown
    if since.all (· ≤ shown - offset) ∧ shown - offset < t.instant then (shown - offset) :: later
    else later

/-- The instants at which the zone's clocks show a civil time, the earliest first. -/
def readings (zone : Zone) (shown : Civil) : List Civil :=
  (readingsFrom none zone.initial zone.transitions shown.stamp).filterMap
    fun stamp => Civil.ofStamp? stamp shown.leap

/-! ## 3. Universal time -/

/-- The zone that is never ahead of UTC. -/
def utc : Zone := ⟨"UTC", 0, []⟩

/-- The names under which universal time itself goes. -/
def isUniversal (zone : Zone) : Bool :=
  ["UTC", "Etc/UTC", "Etc/Zulu"].contains zone.name

end Zone

end Almanac
