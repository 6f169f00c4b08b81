import Almanac.Component
import Almanac.Json.Basic

/-!
# Busy and free time

Busy time is what the instances of some components cover of a window, overlaps merged; free time
is the rest of the window. A slot is a free period with its length in whole minutes of elapsed
time.
-/

namespace Almanac

/-! ## 1. Periods -/

/-- The merged instances of some components that overlap a window. -/
def busyPeriods (components : List Component) (window : Period) : Except Fault PeriodList := do
  let sets ← components.mapM fun c => c.instances window
  return (PeriodList.empty.insertAll (sets.flatMap (·.members))).normalise

/-- What busy time leaves of a window. -/
def freePeriods (busy : PeriodList) (window : Period) : PeriodList :=
  (PeriodList.single window).subtract busy.normalise

/-! ## 2. Slots -/

/-- A free period and its whole minutes. -/
structure Slot where
  start : Temporal
  stop : Temporal
  minutes : Int
deriving DecidableEq, Inhabited

namespace Slot

/-- The slot that a free period is. -/
def ofPeriod (p : Period) : Slot :=
  let zone := p.start.zoneOrUtc
  ⟨p.start, p.stop,
    (Elapsed.between (p.start.instantIn zone) (p.stop.instantIn zone)).wholeMinutes⟩

/-- The text of a slot. -/
def text (s : Slot) : String :=
  s.start.text ++ "/" ++ s.stop.text ++ " (" ++ Numeral.text s.minutes ++ " min)"

/-- The document of a slot. -/
def toJson (s : Slot) : Json :=
  .object [("start", .string s.start.text), ("end", .string s.stop.text),
    ("duration_minutes", .int s.minutes)]

end Slot

/-- The free slots of a window, in order. -/
def freeSlots (busy : PeriodList) (window : Period) : List Slot :=
  (freePeriods busy window).members.map Slot.ofPeriod

/-- The first free slot of a window with at least so many minutes. -/
def firstFreeSlot? (busy : PeriodList) (window : Period) (minutes : Int) : Option Slot :=
  (freeSlots busy window).find? fun slot => minutes ≤ slot.minutes

end Almanac
