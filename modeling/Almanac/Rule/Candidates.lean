import Almanac.Rule.Stages
import Almanac.Temporal.Comparator

/-!
# Candidates of an increment

The candidates of an increment are the values that the stages of a rule find in it, in the frame
of the seed and in the order of the seed's comparator. This file fixes

* candidates are of the seed's kind, and bound to the seed's zone if it has one; the gap policy of
  the rule's settings decides on civil times that the zone's clocks jump over;
* a rule that steps through hours or less in a zone knows the offset of each step. Of the two
  instants of a repeated civil time it takes the later one when that has this offset; without an
  offset the earlier one stands.
-/

namespace Almanac.Rule

/-- The value of the seed's kind at a civil time, in a step with a given offset. -/
def valueAt? (r : Rule) (root : Temporal) (offset : Option Int) (civil : Civil) :
    Option Temporal :=
  match root, offset with
  | .zoned z, some offset =>
    match z.zone.readings civil with
    | earlier :: later :: _ =>
      some (.zoned ⟨if z.zone.offsetAt later = offset then later else earlier, z.zone⟩)
    | _ => root.withCivil r.settings.gapPolicy civil
  | _, _ => root.withCivil r.settings.gapPolicy civil

/-- The candidates of the increment that begins at a civil time of the seed's frame. -/
def candidatesAt (r : Rule) (root : Temporal) (offset : Option Int) (period : Civil) :
    List Temporal :=
  ascending (Comparator.forSeed root).key
    ((r.civilCandidates root.localTime period !root.isDateTime).filterMap (r.valueAt? root offset))

/-- The candidates of the increment that begins at a value, for a rule that starts at a seed. -/
def candidates (r : Rule) (root period : Temporal) : List Temporal :=
  let offset := match period, root with
    | .zoned z, .zoned _ => if r.frequency.isSubDaily then some z.offset else none
    | _, _ => none
  r.candidatesAt root offset (period.inFrameOf root)

/-- **The candidates of an increment ascend strictly.** -/
theorem pairwise_candidatesAt (r : Rule) (root : Temporal) (offset : Option Int) (period : Civil) :
    (r.candidatesAt root offset period).Pairwise fun a b =>
      (Comparator.forSeed root).key a < (Comparator.forSeed root).key b :=
  pairwise_ascending _ _

end Almanac.Rule
