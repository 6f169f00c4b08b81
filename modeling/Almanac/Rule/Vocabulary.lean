import Almanac.Calendar.Weekday
import Almanac.Fault
import Almanac.Text.Blank

/-!
# The words of a rule

The small vocabularies of rule text: frequencies, weekdays with an ordinal, skip policies and
calendar scales. Each is written in upper case and read in either case, blanks around it aside; a
word that is not in its vocabulary is a fault that shows the word in upper case.
-/

namespace Almanac

/-- A word without the blanks around it, in upper case. -/
def canonicalWord (word : String) : String :=
  String.ofList (Text.upper (Text.trim word.toList))

/-! ## 1. Frequencies -/

/-- How far one increment of a rule reaches, from the finest to the coarsest. -/
inductive Frequency where
  | secondly
  | minutely
  | hourly
  | daily
  | weekly
  | monthly
  | yearly
deriving DecidableEq, Repr, Inhabited

namespace Frequency

/-- The frequencies from the finest to the coarsest. -/
def all : List Frequency :=
  [secondly, minutely, hourly, daily, weekly, monthly, yearly]

/-- The place of a frequency, from the finest. -/
def rank : Frequency → Nat
  | secondly => 0
  | minutely => 1
  | hourly => 2
  | daily => 3
  | weekly => 4
  | monthly => 5
  | yearly => 6

/-- Whether an increment is shorter than a day. -/
def isSubDaily (f : Frequency) : Bool := f.rank < daily.rank

/-- The word for a frequency. -/
def text : Frequency → String
  | secondly => "SECONDLY"
  | minutely => "MINUTELY"
  | hourly => "HOURLY"
  | daily => "DAILY"
  | weekly => "WEEKLY"
  | monthly => "MONTHLY"
  | yearly => "YEARLY"

/-- The frequency that a word names. -/
def parse (word : String) : Except Fault Frequency :=
  let word := canonicalWord word
  match all.find? fun f => f.text == word with
  | some f => .ok f
  | none => .error (.unknownFrequency word)

end Frequency

/-! ## 2. Weekdays -/

/-- The weekday that a two-letter code names. -/
def Weekday.parse (code : String) : Except Fault Weekday :=
  let code := canonicalWord code
  match ofCode? code with
  | some day => .ok day
  | none => .error (.unknownWeekday code)

/-- A weekday, with an ordinal that tells which one of a span is meant: counted from the front when
    it is above zero, from the back when it is below, and every one when it is zero. -/
structure DayEntry where
  ordinal : Int
  day : Weekday
deriving DecidableEq, Repr, Inhabited

namespace DayEntry

/-- Every such weekday. -/
def every (day : Weekday) : DayEntry := ⟨0, day⟩

/-- The characters of an entry: the ordinal, unless it is zero, and the code. -/
def chars (e : DayEntry) : List Char :=
  (if e.ordinal = 0 then [] else Numeral.signed e.ordinal) ++ e.day.code.toList

/-- The text of an entry. -/
def text (e : DayEntry) : String := String.ofList e.chars

/-- A text cut before its last two bytes (before its start, if it has fewer), where that is between
    two characters. -/
def cutCode? (cs : List Char) : Option (List Char × List Char) :=
  match cs.reverse with
  | [] => some ([], [])
  | c :: before =>
    if c.utf8Size = 2 then some (before.reverse, [c])
    else if c.utf8Size = 1 then
      match before with
      | [] => some ([], [c])
      | d :: before => if d.utf8Size = 1 then some (before.reverse, [d, c]) else none
    else none

/-- The entry that a text writes. -/
def parse (value : String) : Except Fault DayEntry :=
  let cs := Text.trim value.toList
  match cutCode? cs with
  | none => .error (.malformedWeekday (String.ofList cs))
  | some (ordinal, code) =>
    let ordinal := if ordinal.isEmpty then some 0
      else Numeral.integer? Numeral.signedMin Numeral.signedMax ordinal
    match ordinal with
    | none => .error (.malformedWeekday (String.ofList cs))
    | some ordinal => (Weekday.parse (String.ofList code)).map fun day => ⟨ordinal, day⟩

end DayEntry

/-! ## 3. Skip policies -/

/-- What becomes of a day that its month does not have. -/
inductive Skip where
  /-- It is left out. -/
  | leaveOut
  /-- The last day before it stands in. -/
  | backward
  /-- The first day after it stands in. -/
  | forward
deriving DecidableEq, Repr, Inhabited

namespace Skip

/-- The policies. -/
def all : List Skip := [leaveOut, backward, forward]

/-- The word for a policy. -/
def text : Skip → String
  | leaveOut => "OMIT"
  | backward => "BACKWARD"
  | forward => "FORWARD"

/-- The policy that a word names. -/
def parse (word : String) : Except Fault Skip :=
  let word := canonicalWord word
  match all.find? fun s => s.text == word with
  | some s => .ok s
  | none => .error (.unknownSkip word)

end Skip

/-! ## 4. Scales -/

/-- A calendar scale. All of them share the months and weeks of the Gregorian one and number only
    their years apart, so no scale changes what a rule yields. -/
inductive Scale where
  | gregorian
  | iso8601
  | japanese
  | buddhist
  | roc
deriving DecidableEq, Repr, Inhabited

namespace Scale

/-- The scales. -/
def all : List Scale := [gregorian, iso8601, japanese, buddhist, roc]

/-- The word for a scale. -/
def text : Scale → String
  | gregorian => "GREGORIAN"
  | iso8601 => "ISO8601"
  | japanese => "JAPANESE"
  | buddhist => "BUDDHIST"
  | roc => "ROC"

/-- The scale that a word names. -/
def parse (word : String) : Except Fault Scale :=
  let word := canonicalWord word
  match all.find? fun s => s.text == word with
  | some s => .ok s
  | none => .error (.unsupportedScale word)

end Scale

end Almanac
