import Almanac.Amount.Parser
import Almanac.Period.Basic
import Almanac.Temporal.Parser

/-!
# Period text

A period is written as its start, a slash, and its length if it was built with one, else its stop.
What follows the slash is read as a length when it starts with `P`, signs aside. The length in a
text is relative to the start, so that reading it back gives the same stop.
-/

namespace Almanac.Period

/-- The text of a period. -/
def text (p : Period) : String :=
  p.start.text ++ "/" ++ match p.length with
    | some length => length.textFrom p.start
    | none => p.stop.text

instance : ToString Period := ⟨text⟩

/-- Whether the text after a slash is meant as a length. -/
def looksLikeLength (cs : List Char) : Bool :=
  (cs.dropWhile fun c => c = '+' || c = '-').head? = some 'P'

/-- The period a text writes. -/
def parse (value : String) : Except Fault Period :=
  match Text.cut? '/' value.toList with
  | none => .error (.missingSlash value)
  | some (before, after) => do
    let start ← Temporal.parse (String.ofList before)
    if looksLikeLength after then
      lasting start (← Amount.parse (String.ofList after))
    else
      between start (← Temporal.parse (String.ofList after))

/-- The period a text writes, its floating bounds bound to a zone. -/
def parseIn (zone : Zone) (value : String) : Except Fault Period :=
  (parse value).map (bindTo zone)

end Almanac.Period
