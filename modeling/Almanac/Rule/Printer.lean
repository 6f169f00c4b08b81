import Almanac.Rule.Basic
import Almanac.Temporal.Printer

/-!
# Rule text

A rule is written as `NAME=VALUE` parts with semicolons between them: the scale first, then the
frequency, the week start, the end of the series, the interval, the lists from months down to
positions, the skip policy, and last the parts without a meaning in the order of their names. What a
rule leaves open is not written, and neither is an empty list.
-/

namespace Almanac

namespace RuleParts

/-- Items with commas between them. -/
def commas {α : Type} (chars : α → List Char) (values : List α) : List Char :=
  Text.join ',' (values.map chars)

/-- A part with a value, if there is one. -/
def optional {α : Type} (name : String) (chars : α → List Char) (value : Option α) :
    List (String × List Char) :=
  (value.map fun v => (name, chars v)).toList

/-- A part with the items of a list, unless it is empty. -/
def listed {α : Type} (name : String) (chars : α → List Char) (values : List α) :
    List (String × List Char) :=
  if values.isEmpty then [] else [(name, commas chars values)]

/-- The digits of a natural number. -/
def number (n : Nat) : List Char := Numeral.decimal n

end RuleParts

namespace Rule

open RuleParts

/-- The names and values of a rule's parts, in the order in which they are written. -/
def written (r : Rule) : List (String × List Char) :=
  let p := r.parts
  optional "RSCALE" (fun s : Scale => s.text.toList) p.scale ++
    [("FREQ", r.frequency.text.toList)] ++
    optional "WKST" (fun day : Weekday => day.code.toList) p.weekStart ++
    optional "UNTIL" Temporal.chars p.last? ++
    optional "COUNT" number p.count? ++
    optional "INTERVAL" number p.interval ++
    listed "BYMONTH" number p.months ++
    listed "BYWEEKNO" Numeral.signed p.weekNumbers ++
    listed "BYYEARDAY" Numeral.signed p.yearDays ++
    listed "BYMONTHDAY" Numeral.signed p.monthDays ++
    listed "BYDAY" DayEntry.chars p.days ++
    listed "BYHOUR" number p.hours ++
    listed "BYMINUTE" number p.minutes ++
    listed "BYSECOND" number p.seconds ++
    listed "BYSETPOS" Numeral.signed p.positions ++
    optional "SKIP" (fun s : Skip => s.text.toList) p.skip ++
    p.extras.map fun (name, value) => (name, value.toList)

/-- The characters of a rule's text. -/
def chars (r : Rule) : List Char :=
  Text.join ';' (r.written.map fun (name, value) => name.toList ++ '=' :: value)

/-- The text of a rule. -/
def text (r : Rule) : String := String.ofList r.chars

instance : ToString Rule := ⟨text⟩

end Rule

end Almanac
