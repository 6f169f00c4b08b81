import Almanac.Text.Numeral

/-!
# The words of the command line

The command line has a verb, which says what to do, and switches, which say what with. Four
switches go with every verb and may stand before it; one, which asks for the version, stands before
the verb only; the others belong to the verbs they are listed for. A switch has a long name and some
have a letter too. A name may stand for different things under different verbs, but it is the same
switch. The values of three switches are numbers.
-/

namespace Almanac.Command

/-- How often a switch may be given, and whether a value comes with it. -/
inductive Arity where
  /-- At most once, without a value. -/
  | flag
  /-- At most once, with a value. -/
  | single
  /-- Any number of times, with a value each time. -/
  | many
deriving DecidableEq, Repr

/-- What a command line can say more than the verb. -/
inductive Switch where
  /-- A settings file. -/
  | config
  /-- The number of empty increments at which an expansion stops. -/
  | maxIncrements
  /-- Whether the relaxed reader may help. -/
  | relaxed
  /-- Whether results are printed as JSON. -/
  | json
  /-- Whether nothing but the version is asked for. -/
  | version
  /-- The rule. -/
  | rule
  /-- The start of the series. -/
  | seed
  /-- The zone of floating values. -/
  | zone
  /-- The start of the window. -/
  | since
  /-- The end of the window. -/
  | till
  /-- The most occurrences to list. -/
  | limit
  /-- The value whose successor is asked for. -/
  | after
  /-- The end of the first instance. -/
  | stop
  /-- The length of an instance. -/
  | duration
  /-- A rule of the component. -/
  | componentRule
  /-- An instance added to the component. -/
  | addition
  /-- An exception of the component. -/
  | exception
  /-- A rule for exceptions of the component. -/
  | exceptionRule
  /-- The window as a period. -/
  | window
  /-- Periods to take away. -/
  | minus
  /-- Busy periods. -/
  | busy
  /-- The least length of a slot. -/
  | minMinutes
deriving DecidableEq, Repr

namespace Switch

/-- The long name of a switch. -/
def name : Switch → String
  | config => "config"
  | maxIncrements => "max-increments"
  | relaxed => "relaxed"
  | json => "json"
  | version => "version"
  | rule => "rule"
  | seed => "dtstart"
  | zone => "tzid"
  | since => "from"
  | till => "to"
  | limit => "limit"
  | after => "after"
  | stop => "end"
  | duration => "duration"
  | componentRule => "rrule"
  | addition => "rdate"
  | exception => "exdate"
  | exceptionRule => "exrule"
  | window => "window"
  | minus => "minus"
  | busy => "busy"
  | minMinutes => "min-minutes"

/-- The letter of a switch. -/
def letter? : Switch → Option Char
  | version => some 'V'
  | rule => some 'r'
  | seed => some 'd'
  | limit => some 'l'
  | window => some 'w'
  | _ => none

/-- How often a switch may be given. -/
def arity : Switch → Arity
  | relaxed => .flag
  | json => .flag
  | version => .flag
  | componentRule => .many
  | addition => .many
  | exception => .many
  | exceptionRule => .many
  | _ => .single

/-- The switches that go with every verb. -/
def everywhere : List Switch := [config, maxIncrements, relaxed, json]

/-- The largest number of occurrences that can be asked for. -/
def limitMax : Nat := 18446744073709551615

/-- The longest slot that can be asked for, in minutes. -/
def minutesMax : Int := 9223372036854775807

/-- The number that a value writes for a switch whose values are numbers. -/
def number? (s : Switch) (value : String) : Option Int :=
  match s with
  | maxIncrements => Numeral.integer? Numeral.signedMin Numeral.signedMax value.toList
  | limit => (Numeral.natural? limitMax value.toList).map Int.ofNat
  | minMinutes => Numeral.integer? (-minutesMax - 1) minutesMax value.toList
  | _ => none

/-- Whether a switch may have a value. -/
def admits (s : Switch) (value : String) : Bool :=
  match s with
  | maxIncrements | limit | minMinutes => (s.number? value).isSome
  | _ => true

end Switch

/-- What a command line asks for. -/
inductive Verb where
  /-- The occurrences of a rule. -/
  | expand
  /-- The occurrence after a value. -/
  | next
  /-- The instances of a component. -/
  | set
  /-- A period list, merged. -/
  | normalise
  /-- A period list without the periods of another. -/
  | subtract
  /-- The free slots of a window. -/
  | free
deriving DecidableEq, Repr

namespace Verb

/-- The verbs. -/
def all : List Verb := [expand, next, set, normalise, subtract, free]

/-- The word for a verb. -/
def word : Verb → String
  | expand => "expand"
  | next => "next"
  | set => "set"
  | normalise => "normalise"
  | subtract => "subtract"
  | free => "free"

/-- The verb of a word. -/
def ofWord? (word : String) : Option Verb :=
  all.find? fun verb => verb.word == word

/-- The switches that belong to a verb. -/
def switches : Verb → List Switch
  | expand => [.rule, .seed, .zone, .since, .till, .limit]
  | next => [.rule, .seed, .zone, .after]
  | set => [.seed, .zone, .stop, .duration, .componentRule, .addition, .exception,
      .exceptionRule, .window]
  | normalise => []
  | subtract => [.minus]
  | free => [.busy, .window, .minMinutes]

/-- Whether a word that belongs to no switch may follow the verb. -/
def takesOperand : Verb → Bool
  | normalise => true
  | subtract => true
  | _ => false

end Verb

end Almanac.Command
