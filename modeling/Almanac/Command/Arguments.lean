import Almanac.Command.Switch
import Almanac.Text.Blank

/-!
# Reading the command line

The arguments are read one after the other by a machine (`Reading`) that knows which switches it may
meet. This file fixes

* the value of a switch is the rest of its own argument, after `=` if there is one, or else the
  whole next argument, which must not look like a switch itself;
* the verb is the first argument that belongs to no switch, and one more such argument may follow
  it if the verb takes it;
* after a lone `--` no argument is read as a switch;
* a switch that is not repeatable may stand once before the verb and once after it, and then the one
  after it counts;
* a value has to suit its switch even where it does not count;
* a switch that asks for the version ends the reading: what comes after it is neither read nor
  found fault with.
-/

namespace Almanac.Command

/-! ## 1. Faults -/

/-- What is wrong with the arguments. -/
inductive UsageFault where
  | missingVerb
  | unknownVerb (word : String)
  | unknownSwitch (argument : String)
  | missingValue (switch : Switch)
  | needlessValue (switch : Switch)
  | repeated (switch : Switch)
  | needlessWord (word : String)
  | missing (switch : Switch)
  | conflicting (one other : Switch)
  | malformedNumber (switch : Switch) (value : String)
deriving DecidableEq, Repr

/-- The wording of a usage fault. -/
def UsageFault.message : UsageFault → String
  | missingVerb => "error: a command is required: " ++
      ", ".intercalate (Verb.all.map Verb.word)
  | unknownVerb word => "error: unrecognised command '" ++ word ++ "'"
  | unknownSwitch argument => "error: unexpected argument '" ++ argument ++ "'"
  | missingValue switch => "error: a value is required for '--" ++ switch.name ++ "'"
  | needlessValue switch => "error: '--" ++ switch.name ++ "' takes no value"
  | repeated switch => "error: '--" ++ switch.name ++ "' cannot be used multiple times"
  | needlessWord word => "error: unexpected argument '" ++ word ++ "'"
  | missing switch => "error: '--" ++ switch.name ++ "' is required"
  | conflicting one other =>
    "error: '--" ++ one.name ++ "' cannot be used with '--" ++ other.name ++ "'"
  | malformedNumber switch value =>
    "error: invalid value '" ++ value ++ "' for '--" ++ switch.name ++ "'"

/-! ## 2. Arguments -/

/-- What an argument looks like. -/
inductive Argument where
  /-- A lone `--`. -/
  | divider
  /-- A switch, with the value that its own argument gives it. -/
  | switch (switch : Switch) (value : Option String)
  /-- What looks like a switch and is none that is known here. -/
  | stray
  /-- Anything else. -/
  | word
deriving DecidableEq

/-- How an argument reads where some switches are known. What follows the letter of a switch without
    a value would be more letters; the version is the only such switch, and nothing after it is
    read. -/
def classify (known : List Switch) (argument : String) : Argument :=
  match argument.toList with
  | ['-', '-'] => .divider
  | '-' :: '-' :: body =>
    let (name, value) := match Text.cut? '=' body with
      | some (name, value) => (name, some (String.ofList value))
      | none => (body, none)
    match known.find? fun s => s.name.toList == name with
    | some s => .switch s value
    | none => .stray
  | '-' :: letter :: body =>
    match known.find? fun s => s.letter? == some letter with
    | none => .stray
    | some s =>
      if s.arity = .flag then .switch s none
      else
        match body with
        | [] => .switch s none
        | '=' :: value => .switch s (some (String.ofList value))
        | value => .switch s (some (String.ofList value))
  | _ => .word

/-! ## 3. Reading -/

/-- What has been read of a command line. -/
structure Reading where
  verb : Option Verb
  operand : Option String
  /-- The switches that were given with their values, the latest first. -/
  given : List (Switch × String)
  /-- The switches that were given on this side of the verb. -/
  seen : List Switch
  /-- The switch whose value comes next. -/
  pending : Option Switch
  /-- Whether a divider has been read. -/
  divided : Bool
deriving DecidableEq

namespace Reading

/-- Before the first argument. -/
def blank : Reading := ⟨none, none, [], [], none, false⟩

/-- The switches that may come next. -/
def known (r : Reading) : List Switch :=
  Switch.everywhere ++ match r.verb with
    | none => [.version]
    | some verb => verb.switches

/-- The reading after a switch was given a value. -/
def give (r : Reading) (s : Switch) (value : String) : Except UsageFault Reading :=
  if s.arity ≠ .many ∧ s ∈ r.seen then .error (.repeated s)
  else if !s.admits value then .error (.malformedNumber s value)
  else .ok { r with given := (s, value) :: r.given, seen := s :: r.seen, pending := none }

/-- The reading after a word that belongs to no switch. -/
def takeWord (r : Reading) (word : String) : Except UsageFault Reading :=
  match r.verb with
  | none =>
    match (if r.divided then none else Verb.ofWord? word) with
    | some verb => .ok { r with verb := some verb, seen := [] }
    | none => .error (.unknownVerb word)
  | some verb =>
    if verb.takesOperand ∧ r.operand.isNone then .ok { r with operand := some word }
    else .error (.needlessWord word)

/-- Whether a switch was given. -/
def has (r : Reading) (s : Switch) : Bool :=
  r.given.any (·.1 == s)

/-- The reading after one more argument. -/
def step (r : Reading) (argument : String) : Except UsageFault Reading :=
  if r.has .version then .ok r
  else if r.divided then r.takeWord argument
  else
    match classify r.known argument, r.pending with
    | .word, some s => r.give s argument
    | _, some s => .error (.missingValue s)
    | .word, none => r.takeWord argument
    | .divider, none => .ok { r with divided := true }
    | .stray, none => .error (.unknownSwitch argument)
    | .switch s (some value), none =>
      if s.arity = .flag then .error (.needlessValue s) else r.give s value
    | .switch s none, none =>
      if s.arity = .flag then r.give s "" else .ok { r with pending := some s }

/-- The reading of all arguments. -/
def ofArguments (arguments : List String) : Except UsageFault Reading := do
  let r ← arguments.foldlM step blank
  match r.pending with
  | some s => throw (.missingValue s)
  | none => return r

/-! ## 4. Values -/

/-- The value of a switch that may be given once. -/
def value? (r : Reading) (s : Switch) : Option String :=
  (r.given.find? (·.1 == s)).map (·.2)

/-- The values of a switch that may be repeated, in order. -/
def values (r : Reading) (s : Switch) : List String :=
  ((r.given.filter (·.1 == s)).map (·.2)).reverse

/-- The value of a switch that must be given. -/
def need (r : Reading) (s : Switch) : Except UsageFault String :=
  match r.value? s with
  | some value => .ok value
  | none => .error (.missing s)

/-- The number that was given with a switch whose values are numbers. -/
def number? (r : Reading) (s : Switch) : Option Int :=
  (r.value? s).bind s.number?

end Reading

end Almanac.Command
