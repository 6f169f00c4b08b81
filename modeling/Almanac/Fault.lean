import Almanac.Amount.Printer

/-!
# Faults

Everything that can go wrong when a text is read or a value is built, one constructor for each
cause. The wording of a fault is in `Fault.message` and nowhere else.
-/

namespace Almanac

/-- The parts of a rule whose values are checked against a range. -/
inductive RulePart where
  | bySecond
  | byMinute
  | byHour
  | byDay
  | byMonthDay
  | byYearDay
  | byWeekNo
  | byMonth
  | bySetPos
  | interval
  | count
deriving DecidableEq, Repr, Inhabited

/-- The name of a part in rule text. -/
def RulePart.name : RulePart → String
  | bySecond => "BYSECOND"
  | byMinute => "BYMINUTE"
  | byHour => "BYHOUR"
  | byDay => "BYDAY"
  | byMonthDay => "BYMONTHDAY"
  | byYearDay => "BYYEARDAY"
  | byWeekNo => "BYWEEKNO"
  | byMonth => "BYMONTH"
  | bySetPos => "BYSETPOS"
  | interval => "INTERVAL"
  | count => "COUNT"

/-- The values that a part of a rule allows. -/
inductive ValueRange where
  /-- From `least` to `most`. -/
  | between (least most : Nat)
  /-- From `-most` to `most`, without zero. -/
  | eitherSide (most : Nat)
  /-- No months with a letter. -/
  | plainMonths
deriving DecidableEq, Repr, Inhabited

namespace ValueRange

/-- Whether a value lies in the range. -/
def contains (range : ValueRange) (value : Int) : Bool :=
  match range with
  | between least most => least ≤ value && value ≤ most
  | eitherSide most => value ≠ 0 && value.natAbs ≤ most
  | plainMonths => false

/-- The wording of a range. -/
def describe : ValueRange → String
  | between least most => Numeral.text least ++ "..=" ++ Numeral.text most
  | eitherSide most => "-" ++ Numeral.text most ++ "..=-1 or 1..=" ++ Numeral.text most
  | plainMonths => "no leap months in supported scales"

end ValueRange

/-- What went wrong. -/
inductive Fault where
  /-- A text is no date or date-time; reading stopped at a byte position. -/
  | malformedTemporal (value : String) (position : Nat)
  /-- No zone has this name. -/
  | unknownZone (id : String)
  /-- A text is no amount of time. -/
  | malformedAmount (value : String)
  /-- A nominal amount with parts of both signs. -/
  | mixedSigns (amount : Nominal)
  /-- A sum that lies outside the calendar. -/
  | outsideCalendar (value : Temporal) (amount : Amount)
  /-- A period text without a slash. -/
  | missingSlash (value : String)
  /-- A period that ends before it starts. -/
  | endBeforeStart (stop start : Temporal)
  /-- A period with a length below zero. -/
  | negativeLength (amount : Amount)
  /-- A rule without a frequency. -/
  | missingFrequency
  /-- A rule token without an equals sign. -/
  | malformedToken (token : String)
  /-- A rule part that no rule knows. -/
  | unknownPart (name : String)
  /-- A word that names no frequency. -/
  | unknownFrequency (word : String)
  /-- A word that names no weekday. -/
  | unknownWeekday (word : String)
  /-- A word that names no skip policy. -/
  | unknownSkip (word : String)
  /-- A weekday entry that cannot be read. -/
  | malformedWeekday (value : String)
  /-- A rule part whose value is no number. -/
  | malformedNumber (part : RulePart) (value : String)
  /-- A list part with an item that cannot be read. -/
  | malformedItem (part : RulePart) (value : String)
  /-- A skip policy in a rule without a calendar scale. -/
  | skipWithoutScale
  /-- A value that its rule part does not allow. -/
  | outOfRange (part : RulePart) (value : Int) (range : ValueRange)
  /-- A calendar scale that cannot be used. -/
  | unsupportedScale (name : String)
  /-- A settings document that cannot be used. -/
  | malformedSettings (reason : String)

namespace Fault

/-- The wording of a fault. -/
def message : Fault → String
  | malformedTemporal value position =>
    "Invalid date-time '" ++ value ++ "' at position " ++ Numeral.text position
  | unknownZone id => "Invalid timezone: " ++ id
  | malformedAmount value => "Invalid duration: " ++ value
  | mixedSigns n =>
    "Invalid duration: mixed signs in " ++ Numeral.text n.years.toInt ++ "Y" ++
      Numeral.text n.months.toInt ++ "M" ++ Numeral.text n.days.toInt ++ "D"
  | outsideCalendar value amount =>
    "Invalid duration: " ++ value.text ++ " + " ++ amount.text ++ " is out of range"
  | missingSlash value => "Invalid period: missing '/' in '" ++ value ++ "'"
  | endBeforeStart stop start =>
    "Invalid period: " ++ stop.text ++ " is before " ++ start.text
  | negativeLength amount => "Invalid period: negative duration " ++ amount.text
  | missingFrequency => "Invalid RRULE: FREQ is required"
  | malformedToken token => "Invalid RRULE: expected NAME=VALUE, got '" ++ token ++ "'"
  | unknownPart name => "Invalid RRULE: unrecognised rule part '" ++ name ++ "'"
  | unknownFrequency word => "Invalid RRULE: unknown FREQ '" ++ word ++ "'"
  | unknownWeekday word => "Invalid RRULE: unknown weekday '" ++ word ++ "'"
  | unknownSkip word => "Invalid RRULE: unknown SKIP '" ++ word ++ "'"
  | malformedWeekday value => "Invalid RRULE: invalid BYDAY value '" ++ value ++ "'"
  | malformedNumber part value =>
    "Invalid RRULE: " ++ part.name ++ ": invalid number '" ++ value ++ "'"
  | malformedItem part value =>
    "Invalid RRULE: " ++ part.name ++ ": invalid value '" ++ value ++ "'"
  | skipWithoutScale => "Invalid RRULE: SKIP requires RSCALE"
  | outOfRange part value range =>
    part.name ++ " value " ++ Numeral.text value ++ " out of range (" ++ range.describe ++ ")"
  | unsupportedScale name => "Unsupported RSCALE: " ++ name
  | malformedSettings reason => "Invalid configuration: " ++ reason

end Fault

end Almanac
