import Almanac.Zone.Basic

/-!
# Civil times that a zone repeats or leaves out

Binding a civil time to a zone means choosing an instant at which the zone's clocks show it.

* A time that is shown twice is taken at its earlier instant, whatever the policy.
* A time that is never shown lies in a gap. Under `GapPolicy.skip` it has no instant; under
  `GapPolicy.shiftForward` it is read with the offset in force before the gap, and so moves later
  by as much as the clocks jumped.
-/

namespace Almanac

/-- What to do with a civil time that a zone's clocks jump over. -/
inductive GapPolicy where
  /-- Drop it. -/
  | skip
  /-- Move it later by the length of the gap. -/
  | shiftForward
deriving DecidableEq, Repr, Inhabited

namespace Zone

/-- The first instant at which the zone's clocks show a civil time. -/
def earliest? (zone : Zone) (shown : Civil) : Option Civil :=
  (zone.readings shown).head?

/-- The offset in force a day before a civil time. No zone has a gap longer than a day, so for a
    time in a gap this is the offset that the gap ends. -/
def offsetBefore (zone : Zone) (shown : Civil) : Int :=
  let before := shown.addSecondsWithin (-86400)
  zone.offsetAt ((zone.earliest? before).getD before)

/-- The instant of a civil time: the first one that shows it, or, in a gap, the one that would have
    shown it had the offset stayed. -/
def settle (zone : Zone) (shown : Civil) : Civil :=
  (zone.earliest? shown).getD (shown.addSecondsWithin (-zone.offsetBefore shown))

end Zone

/-- The instant of a civil time in a zone, under a policy for gaps. -/
def GapPolicy.resolve (policy : GapPolicy) (zone : Zone) (shown : Civil) : Option Civil :=
  match policy with
  | skip => zone.earliest? shown
  | shiftForward => some (zone.settle shown)

end Almanac
