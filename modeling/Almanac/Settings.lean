import Almanac.Fault
import Almanac.Json.Parser
import Almanac.Zone.GapPolicy

/-!
# Settings

Four settings steer how rules are read and expanded. They travel with a rule; nothing is global.

A settings document is JSON. As an object it may leave out any field, and fields with other names do
not count, whatever their values hold; every name must be text, and the four may stand only once. As
an array it gives the settings in their order, and may stop early. Numbers are whole and fit 32
bits, truth values are truth values, and the gap policy is `"skip"` or `"shift_forward"`, or an
object with that one name and the value null.
-/

namespace Almanac

/-- How rules are read and expanded. -/
structure Settings where
  /-- Increments in a row without a candidate that end an expansion; zero or less: any number. -/
  emptyLimit : Int
  /-- Whether the relaxed reader may help with a rule's final value. -/
  relaxed : Bool
  /-- Whether unknown rule parts are kept. -/
  tolerant : Bool
  /-- What becomes of candidates in a gap of the seed's zone. -/
  gapPolicy : GapPolicy
deriving DecidableEq, Repr

namespace Settings

/-- The settings that hold unless others are given. -/
def standard : Settings := ⟨1000, false, false, .shiftForward⟩

instance : Inhabited Settings := ⟨standard⟩

/-- The number of empty increments at which an expansion stops, if there is one. -/
def guard? (s : Settings) : Option Nat :=
  if 0 < s.emptyLimit then some s.emptyLimit.toNat else none

/-! ## 1. Documents -/

/-- The names of the settings, in order. -/
def names : List String :=
  ["max_increment_count", "relaxed_parsing", "tolerate_unknown_parts", "dst_policy"]

/-- The word for a gap policy. -/
def policyWord : GapPolicy → String
  | .skip => "skip"
  | .shiftForward => "shift_forward"

/-- The gap policy that a word names. -/
def policyOfWord? (word : String) : Option GapPolicy :=
  [GapPolicy.skip, .shiftForward].find? fun policy => policyWord policy == word

/-- The gap policy that a value gives. -/
def policy? : Json → Option GapPolicy
  | .string (.text word) => policyOfWord? word
  | .object [(.text word, .null)] => policyOfWord? word
  | _ => none

/-- The settings with the one of a name replaced; a name that is no text is none. -/
def set? (s : Settings) (name : JsonString) (value : Json) : Option Settings :=
  match name with
  | .unpaired _ => none
  | .text "max_increment_count" =>
    (value.int?.filter fun n => Numeral.signedMin ≤ n ∧ n ≤ Numeral.signedMax).map
      fun n => { s with emptyLimit := n }
  | .text "relaxed_parsing" => value.bool?.map fun b => { s with relaxed := b }
  | .text "tolerate_unknown_parts" => value.bool?.map fun b => { s with tolerant := b }
  | .text "dst_policy" => (policy? value).map fun policy => { s with gapPolicy := policy }
  | _ => some s

/-- The settings with several replaced, one after the other. -/
def setAll? (s : Settings) (fields : List (JsonString × Json)) : Option Settings :=
  fields.foldlM (fun s (name, value) => s.set? name value) s

/-- Whether each of the four names stands at most once. -/
def namedOnce (fields : List (JsonString × Json)) : Bool :=
  names.all fun name => (fields.filter (·.1 == .text name)).length ≤ 1

/-- The settings that a document gives. -/
def ofJson? : Json → Option Settings
  | .object fields => if namedOnce fields then standard.setAll? fields else none
  | .array values =>
    if values.length ≤ names.length then standard.setAll? ((names.map .text).zip values) else none
  | _ => none

/-- The settings that a JSON text gives. -/
def parse (text : String) : Except Fault Settings :=
  match Json.parse? text with
  | none => .error (.malformedSettings "the document is no JSON")
  | some json =>
    match ofJson? json with
    | none => .error (.malformedSettings "the document does not describe settings")
    | some settings => .ok settings

/-- The document of some settings. -/
def toJson (s : Settings) : Json :=
  .object [("max_increment_count", .int s.emptyLimit), ("relaxed_parsing", .bool s.relaxed),
    ("tolerate_unknown_parts", .bool s.tolerant), ("dst_policy", .string (policyWord s.gapPolicy))]

end Settings

end Almanac
