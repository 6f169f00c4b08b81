import Almanac.Amount.Basic
import Almanac.Temporal.Printer

/-!
# Amount text

An amount is written with a sign when it goes back in time, the letter `P`, and its length.

* A nominal amount is written in days, or in weeks when its days are a nonzero multiple of seven.
  Years and months have no length of their own, so an amount that has any is measured in days from a
  seed; where that leaves the calendar it counts as no days.
* An exact amount is written in days, hours, minutes and seconds, the zero parts left out; in weeks
  alone when it is a number of whole weeks; and as `PT0S` when it is nothing.
-/

namespace Almanac

namespace Nominal

/-- The length of a nominal amount in whole days, years and months measured from a civil time. -/
def daysFrom (n : Nominal) (seed : Civil) : Int :=
  if n.years ≠ 0 ∨ n.months ≠ 0 then
    match n.addTo? seed with
    | none => 0
    | some stop => (stop.secondsSince seed).tdiv 86400
  else n.days.toInt

/-- Days, written as weeks where they are some. -/
def dayChars (days : Int) : List Char :=
  if days ≠ 0 ∧ days.tmod 7 = 0 then Numeral.signed (days.tdiv 7) ++ ['W']
  else Numeral.signed days ++ ['D']

end Nominal

namespace Elapsed

/-- A number and its letter, or nothing for zero. -/
def part (n : Nat) (letter : Char) : List Char :=
  if n = 0 then [] else Numeral.decimal n ++ [letter]

/-- The length of an exact amount that does not go back in time. -/
def lengthChars (seconds : Nat) : List Char :=
  let days := seconds / 86400
  let rest := seconds % 86400
  if seconds = 0 then ['T', '0', 'S']
  else if rest = 0 ∧ days % 7 = 0 then Numeral.decimal (days / 7) ++ ['W']
  else
    part days 'D' ++
      if rest = 0 then []
      else 'T' :: part (rest / 3600) 'H' ++ part (rest % 3600 / 60) 'M' ++ part (rest % 60) 'S'

end Elapsed

namespace Amount

/-- The characters of an amount's text, years and months measured from a civil time. -/
def charsFrom (a : Amount) (seed : Civil) : List Char :=
  let length := match a.magnitude with
    | nominal n => Nominal.dayChars (n.daysFrom seed)
    | exact e => Elapsed.lengthChars e.seconds.toNat
  if a.isNegative then '-' :: 'P' :: length else 'P' :: length

/-- The civil time that years and months are measured from when no seed is given: the start of 1
    January 1970. -/
def plainSeed : Civil :=
  Civil.nearest (yearStart 1970 * 86400) false

/-- The text of an amount relative to a seed. -/
def textFrom (a : Amount) (seed : Temporal) : String :=
  String.ofList (a.charsFrom seed.localTime)

/-- The text of an amount. -/
def text (a : Amount) : String :=
  String.ofList (a.charsFrom plainSeed)

instance : ToString Amount := ⟨text⟩

end Amount

end Almanac
