import Almanac.Rule.Draft
import Almanac.Temporal.Parser

/-!
# Reading rules

Rule text is a row of tokens `NAME=VALUE` with semicolons between them. Blanks around a token or a
name, and tokens without characters, do not count; names stand in either case; the row may begin
with `RRULE:` or `EXRULE:`. Each token is one assignment to a draft (`Assignment.ofToken`). Lists
have commas between their items, and empty items do not count either.

A part whose name begins with `X-` is kept as it is. So is any other part without a meaning when the
settings are tolerant, and otherwise it is a fault.
-/

namespace Almanac

namespace Assignment

/-! ## 1. Values -/

/-- A number without a sign below zero. -/
def number (part : RulePart) (value : String) : Except Fault Nat :=
  match Numeral.natural? Numeral.unsignedMax (Text.trim value.toList) with
  | some n => .ok n
  | none => .error (.malformedNumber part value)

/-- The items of a list, each read by `read?`. -/
def list {α : Type} (part : RulePart) (read? : List Char → Option α) (value : String) :
    Except Fault (List α) :=
  (Text.items ',' value.toList).mapM fun item =>
    match read? item with
    | some a => .ok a
    | none => .error (.malformedItem part (String.ofList item))

/-- The items of a list of natural numbers. -/
def naturals (part : RulePart) (value : String) : Except Fault (List Nat) :=
  list part (Numeral.natural? Numeral.unsignedMax) value

/-- The items of a list of integers. -/
def integers (part : RulePart) (value : String) : Except Fault (List Int) :=
  list part (Numeral.integer? Numeral.signedMin Numeral.signedMax) value

/-- The items of a list of weekdays. -/
def dayEntries (value : String) : Except Fault (List DayEntry) :=
  list .byDay (fun item => (DayEntry.parse (String.ofList item)).toOption) value

/-- The number in front of the letter of a leap month, or zero if there is none. -/
def leapMonth (digits : List Char) : Int :=
  (Numeral.integer? (-9223372036854775808) 9223372036854775807 digits).getD 0

/-- The items of a list of months. A month marked as a leap month is outside every scale. -/
def monthNumbers (value : String) : Except Fault (List Nat) :=
  (Text.items ',' value.toList).mapM fun item =>
    match item.reverse with
    | 'L' :: digits => .error (.outOfRange .byMonth (leapMonth digits.reverse) .plainMonths)
    | 'l' :: digits => .error (.outOfRange .byMonth (leapMonth digits.reverse) .plainMonths)
    | _ => number .byMonth (String.ofList item)

/-! ## 2. Tokens -/

/-- The assignment that a name and a value make. -/
def ofPart (settings : Settings) (name value : String) : Except Fault Assignment :=
  match name with
  | "FREQ" => (Frequency.parse value).map .frequency
  | "UNTIL" =>
    (Temporal.parseWith settings.relaxed (String.ofList (Text.trim value.toList))).map .last
  | "COUNT" => (number .count value).map .count
  | "INTERVAL" => (number .interval value).map .interval
  | "WKST" => (Weekday.parse value).map .weekStart
  | "RSCALE" => (Scale.parse value).map .scale
  | "SKIP" => (Skip.parse value).map .skip
  | "BYSECOND" => (naturals .bySecond value).map .seconds
  | "BYMINUTE" => (naturals .byMinute value).map .minutes
  | "BYHOUR" => (naturals .byHour value).map .hours
  | "BYDAY" => (dayEntries value).map .days
  | "BYMONTHDAY" => (integers .byMonthDay value).map .monthDays
  | "BYYEARDAY" => (integers .byYearDay value).map .yearDays
  | "BYWEEKNO" => (integers .byWeekNo value).map .weekNumbers
  | "BYMONTH" => (monthNumbers value).map .months
  | "BYSETPOS" => (integers .bySetPos value).map .positions
  | _ =>
    if (Text.dropHead? ['X', '-'] name.toList).isSome || settings.tolerant then
      .ok (.extra name value)
    else .error (.unknownPart name)

/-- The assignment that a token makes. -/
def ofToken (settings : Settings) (token : List Char) : Except Fault Assignment :=
  match Text.cut? '=' token with
  | none => .error (.malformedToken (String.ofList token))
  | some (name, value) =>
    ofPart settings (String.ofList (Text.upper (Text.trim name))) (String.ofList value)

end Assignment

namespace Rule

/-! ## 3. Rules -/

/-- The row of tokens: what follows the word for a rule, if one stands in front. -/
def body (value : String) : List Char :=
  let cs := Text.trim value.toList
  (Text.dropHead? "RRULE:".toList cs <|> Text.dropHead? "EXRULE:".toList cs).getD cs

/-- The rule that a text writes. -/
def parseWith (settings : Settings) (value : String) : Except Fault Rule := do
  let assignments ← (Text.items ';' (body value)).mapM (Assignment.ofToken settings)
  ((Draft.blank settings).assignAll assignments).build

/-- The rule that a text writes, under the standard settings. -/
def parse (value : String) : Except Fault Rule :=
  parseWith .standard value

end Rule

end Almanac
