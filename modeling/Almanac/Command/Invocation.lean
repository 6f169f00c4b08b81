import Almanac.Command.Arguments

/-!
# Invocations

An invocation is a command line that makes sense: a verb with everything it needs, and no switches
that contradict each other, or else the wish to know the version. Its values are still texts, apart
from numbers.
-/

namespace Almanac.Command

/-- What is asked for, by a verb or without one. -/
inductive Request where
  | version
  | expand (rule seed : String) (zone since till : Option String) (limit : Option Nat)
  | next (rule seed : String) (zone : Option String) (after : String)
  | set (seed : String) (zone stop duration : Option String)
      (rules additions exceptions exceptionRules : List String) (window : String)
  | normalise (periods : Option String)
  | subtract (periods : Option String) (minus : String)
  | free (busy : Option String) (window : String) (minutes : Option Int)
deriving DecidableEq, Repr

/-- A request, and the settings that go with every verb. -/
structure Invocation where
  request : Request
  config : Option String
  maxIncrements : Option Int
  relaxed : Bool
  json : Bool
deriving DecidableEq, Repr

/-- The request of a reading whose verb is known. -/
def Reading.request (r : Reading) : Verb → Except UsageFault Request
  | .expand =>
    return .expand (← r.need .rule) (← r.need .seed) (r.value? .zone) (r.value? .since)
      (r.value? .till) ((r.number? .limit).map Int.toNat)
  | .next => return .next (← r.need .rule) (← r.need .seed) (r.value? .zone) (← r.need .after)
  | .set => do
    if r.has .stop && r.has .duration then throw (.conflicting .stop .duration)
    return .set (← r.need .seed) (r.value? .zone) (r.value? .stop) (r.value? .duration)
      (r.values .componentRule) (r.values .addition) (r.values .exception)
      (r.values .exceptionRule) (← r.need .window)
  | .normalise => return .normalise r.operand
  | .subtract => return .subtract r.operand (← r.need .minus)
  | .free => return .free (r.value? .busy) (← r.need .window) (r.number? .minMinutes)

namespace Invocation

/-- The invocation that asks for the version, and needs no settings for it. -/
def version : Invocation := ⟨.version, none, none, false, false⟩

/-- The invocation that some arguments are. -/
def ofArguments (arguments : List String) : Except UsageFault Invocation := do
  let r ← Reading.ofArguments arguments
  if r.has .version then return version
  match r.verb with
  | none => throw .missingVerb
  | some verb =>
    return ⟨← r.request verb, r.value? .config, r.number? .maxIncrements, r.has .relaxed,
      r.has .json⟩

/-- Whether the periods of a request come from standard input. -/
def readsInput (i : Invocation) : Bool :=
  match i.request with
  | .normalise none => true
  | .subtract none _ => true
  | .free none _ _ => true
  | _ => false

end Invocation

end Almanac.Command
