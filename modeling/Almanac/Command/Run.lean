import Almanac.Command.Invocation
import Almanac.FreeTime
import Almanac.Rule.Parser

/-!
# Running the command line

A run turns an invocation, the settings file it names and the text on standard input into what is
printed. It prints nothing unless all goes well; a failure says what was being done and what
caused it. Settings come from the file first and from the command line second.
-/

namespace Almanac.Command

/-! ## 1. Failures -/

/-- What was being done when something went wrong, and the causes of that, each the cause of the one
    before. -/
structure Failure where
  context : String
  causes : List String
deriving DecidableEq, Repr

namespace Failure

/-- A text whose lines after the first are indented. -/
def indented (width : Nat) (text : String) : String :=
  String.ofList (text.toList.flatMap fun c =>
    if c = '\n' then '\n' :: List.replicate width ' ' else [c])

/-- The lines that tell the causes: one cause stands alone, several are numbered. -/
def told (causes : List String) : String :=
  match causes with
  | [] => ""
  | [cause] => "\n\nCaused by:\n    " ++ indented 4 cause
  | causes => "\n\nCaused by:" ++ String.join (causes.zipIdx.map fun (cause, n) =>
      "\n    " ++ Numeral.text n ++ ": " ++ indented 7 cause)

/-- The report of a failure. -/
def report (f : Failure) : String :=
  "Error: " ++ f.context ++ told f.causes ++ "\n"

end Failure

/-- The causes that a fault amounts to: a settings document has a reason of its own. -/
def causesOf (fault : Fault) : List String :=
  match fault with
  | .malformedSettings reason => [fault.message, reason]
  | _ => [fault.message]

/-- A result whose fault is told in a context. -/
def doing {α : Type} (context : String) : Except Fault α → Except Failure α
  | .ok a => .ok a
  | .error fault => .error ⟨context, causesOf fault⟩

/-! ## 2. Values -/

/-- The settings of an invocation; `files` gives the text of a file or the reason why there is
    none. -/
def Invocation.settings (i : Invocation) (files : String → Except String String) :
    Except Failure Settings := do
  let base ← match i.config with
    | none => pure Settings.standard
    | some path =>
      match files path with
      | .error cause => throw ⟨"Failed to read config file: " ++ path, [cause]⟩
      | .ok text => doing ("Invalid config file: " ++ path) (Settings.parse text)
  return { base with
    emptyLimit := i.maxIncrements.getD base.emptyLimit
    relaxed := i.relaxed || base.relaxed }

/-- The rule that a text writes. -/
def readRule (settings : Settings) (text : String) : Except Failure Rule :=
  doing ("Invalid rule: " ++ text) (Rule.parseWith settings text)

/-- The value that a text writes. -/
def readTemporal (settings : Settings) (text : String) : Except Failure Temporal :=
  doing ("Invalid date or date-time: " ++ text) (Temporal.parseWith settings.relaxed text)

/-- The value that a text writes, bound to a zone if one is named. -/
def readBound (settings : Settings) (zone : Option String) (text : String) :
    Except Failure Temporal := do
  let value ← readTemporal settings text
  match zone with
  | none => return value
  | some id =>
    let zone ← doing ("Unknown time zone: " ++ id) (Zone.parse id)
    return value.bindTo zone

/-- The period that a text writes. -/
def readPeriod (text : String) : Except Failure Period :=
  doing ("Invalid period: " ++ text) (Period.parse text)

/-- The periods that a text writes. -/
def readPeriods (text : String) : Except Failure PeriodList :=
  let text := String.ofList (Text.trim text.toList)
  doing ("Invalid period list: " ++ text) (PeriodList.parse text)

/-- The addition that a text writes: a period when it has a slash. -/
def readAddition (settings : Settings) (zone : Option String) (text : String) :
    Except Failure Addition :=
  if text.toList.contains '/' then (readPeriod text).map .period
  else (readBound settings zone text).map .instant

/-! ## 3. Output -/

/-- Texts, each on a line of its own. -/
def lines (texts : List String) : String :=
  String.join (texts.map (· ++ "\n"))

/-- Values, as lines of text or as one JSON array. -/
def listing {α : Type} (json : Bool) (text : α → String) (document : α → Json)
    (values : List α) : String :=
  if json then lines [(Json.list document values).pretty] else lines (values.map text)

/-- Date-times, as lines or as JSON strings. -/
def temporals (json : Bool) (ts : List Temporal) : String :=
  listing json Temporal.text (fun t => .string t.text) ts

/-- Periods, as lines or as JSON strings. -/
def periods (json : Bool) (l : PeriodList) : String :=
  listing json Period.text (fun p => .string p.text) l.members

/-! ## 4. Runs -/

/-- The number of occurrences to list without a window end: a rule that does not end by itself needs
    one. -/
def boundFor (r : Rule) (limit : Option Nat) : Except Failure Nat :=
  match limit with
  | some n => .ok n
  | none =>
    if r.parts.ending.isSome then .ok Switch.limitMax
    else .error ⟨"Rule has no COUNT or UNTIL; pass --limit or --to", []⟩

/-- The occurrences that are asked for. -/
def expansion (settings : Settings) (r : Rule) (seed : Temporal) (since till : Option String)
    (limit : Option Nat) : Except Failure (List Temporal) := do
  let start ← since.mapM (readTemporal settings)
  match till with
  | some till =>
    let stop ← readTemporal settings till
    return r.dates seed (start.getD seed) stop limit
  | none =>
    let most ← boundFor r limit
    let series := r.occurrences seed
    return series.takeWhere (fun t => start.all fun first => !series.comparator.before t first) most

/-- The component that is described. -/
def component (settings : Settings) (seed : String) (zone stop duration : Option String)
    (rules additions exceptions exceptionRules : List String) : Except Failure Component := do
  let start ← readBound settings zone seed
  let stop ← stop.mapM (readBound settings zone)
  let length ← duration.mapM fun text => doing ("Invalid duration: " ++ text) (Amount.parse text)
  let rules ← rules.mapM (readRule settings)
  let additions ← additions.mapM (readAddition settings zone)
  let exceptions ← exceptions.mapM (readBound settings zone)
  let exceptionRules ← exceptionRules.mapM (readRule settings)
  return ⟨start, stop, none, length, additions, rules, exceptions, exceptionRules⟩

/-- The program and its version. -/
def versionText : String := "recur 0.1.0"

/-- What a request prints. -/
def Request.run (request : Request) (settings : Settings) (json : Bool) (input : String) :
    Except Failure String :=
  match request with
  | .version => return lines [versionText]
  | .expand rule seed zone since till limit => do
    let r ← readRule settings rule
    let seed ← readBound settings zone seed
    return temporals json (← expansion settings r seed since till limit)
  | .next rule seed zone after => do
    let r ← readRule settings rule
    let seed ← readBound settings zone seed
    let after ← readTemporal settings after
    match r.next? seed after with
    | some t => return lines [if json then (Json.string t.text).compact else t.text]
    | none =>
      if json then return lines [Json.null.compact]
      throw ⟨"No occurrence after " ++ after.text, []⟩
  | .set seed zone stop duration rules additions exceptions exceptionRules window => do
    let c ← component settings seed zone stop duration rules additions exceptions exceptionRules
    let window ← readPeriod window
    return periods json (← doing "Failed to calculate recurrence set" (c.instances window))
  | .normalise list => do
    let list ← readPeriods (list.getD input)
    return periods json list.normalise
  | .subtract list minus => do
    let list ← readPeriods (list.getD input)
    let minus ← readPeriods minus
    return periods json (list.subtract minus)
  | .free busy window minutes => do
    let busy ← readPeriods (busy.getD input)
    let window ← readPeriod window
    let slots := match minutes with
      | some least => (firstFreeSlot? busy window least).toList
      | none => freeSlots busy window
    return listing json Slot.text Slot.toJson slots

/-- What a program leaves behind. -/
structure Outcome where
  code : Nat
  output : String
  errors : String
deriving DecidableEq, Repr

/-- What an invocation leaves behind. -/
def Invocation.run (i : Invocation) (files : String → Except String String) (input : String) :
    Outcome :=
  let printed := do
    let settings ← i.settings files
    i.request.run settings i.json input
  match printed with
  | .ok output => ⟨0, output, ""⟩
  | .error failure => ⟨1, "", failure.report⟩

/-- What a command line leaves behind: one that makes no sense ends with code 2. -/
def run (arguments : List String) (files : String → Except String String) (input : String) :
    Outcome :=
  match Invocation.ofArguments arguments with
  | .error fault => ⟨2, "", fault.message ++ "\n"⟩
  | .ok i => i.run files input

end Almanac.Command
