import Almanac.Text.Numeral

/-!
# JSON values and their text

A JSON value keeps everything a document says: the fields of an object in their order, repeated
names included, and a number as the text it was written with, so that `1`, `1.0` and `1e0` stay
three different values. A string, be it a value or the name of a field, may also hold half a
surrogate pair. Then it stands for no text, and its body is kept as it was written (`JsonString`).

Text comes in two layouts. `Json.compact` puts no blanks anywhere. `Json.pretty` puts every item on
a line of its own, two spaces deeper than what it belongs to, and writes empty arrays and objects as
`[]` and `\x7b\x7d`.
-/

namespace Almanac

/-- A string of a document. -/
inductive JsonString where
  /-- A string that stands for a text. -/
  | text (value : String)
  /-- The body of a string with half a surrogate pair, which stands for no text. -/
  | unpaired (body : String)
deriving DecidableEq, Repr, Inhabited

instance : Coe String JsonString := ⟨.text⟩

/-- A JSON value. -/
inductive Json where
  | null
  | bool (value : Bool)
  | number (text : String)
  | string (value : JsonString)
  | array (items : List Json)
  | object (fields : List (JsonString × Json))
deriving Inhabited

namespace Json

/-! ## 1. Values -/

/-- The number an integer is. -/
def int (n : Int) : Json := number (Numeral.text n)

/-- A value, or null where there is none. -/
def optional {α : Type} (f : α → Json) : Option α → Json
  | none => null
  | some a => f a

/-- The array of the values of a list. -/
def list {α : Type} (f : α → Json) (items : List α) : Json :=
  array (items.map f)

/-- The value of the last field with a name. -/
def field? (json : Json) (name : String) : Option Json :=
  match json with
  | object fields => (fields.reverse.find? (·.1 == .text name)).map (·.2)
  | _ => none

/-- The integer that a number without fraction and exponent is; minus zero is not one. -/
def int? : Json → Option Int
  | number text =>
    if text = "-0" then none
    else
      match text.toList with
      | '-' :: digits => (Numeral.digits? digits).map fun n => -Int.ofNat n
      | digits => (Numeral.digits? digits).map Int.ofNat
  | _ => none

/-- The text that a string stands for. -/
def string? : Json → Option String
  | string (.text value) => some value
  | _ => none

/-- The value of a truth value. -/
def bool? : Json → Option Bool
  | bool value => some value
  | _ => none

/-- The items of an array. -/
def array? : Json → Option (List Json)
  | array items => some items
  | _ => none

/-! ## 2. Strings in text -/

/-- A hexadecimal digit, in lower case. -/
def hexDigit (n : Nat) : Char :=
  if n < 10 then Numeral.digitChar n else Char.ofNat ('a'.toNat + (n - 10))

/-- A character as it stands in a string. -/
def escape (c : Char) : List Char :=
  if c = '"' then ['\\', '"']
  else if c = '\\' then ['\\', '\\']
  else if c = '\n' then ['\\', 'n']
  else if c = '\r' then ['\\', 'r']
  else if c = '\t' then ['\\', 't']
  else if c.toNat = 8 then ['\\', 'b']
  else if c.toNat = 12 then ['\\', 'f']
  else if c.toNat < 32 then
    ['\\', 'u', '0', '0', hexDigit (c.toNat / 16), hexDigit (c.toNat % 16)]
  else [c]

/-- The body of a string between its quotes. -/
def inQuotes (body : List Char) : String :=
  String.ofList ('"' :: body ++ ['"'])

/-- A string with its quotes. -/
def quoted : JsonString → String
  | .text value => inQuotes (value.toList.flatMap escape)
  | .unpaired body => inQuotes body.toList

/-! ## 3. Layouts -/

mutual

/-- The text of a value without blanks. -/
def compact : Json → String
  | null => "null"
  | bool true => "true"
  | bool false => "false"
  | number text => text
  | string value => quoted value
  | array items => "[" ++ compactItems items ++ "]"
  | object fields => "\x7b" ++ compactFields fields ++ "\x7d"

/-- The items of an array, with commas between them. -/
def compactItems : List Json → String
  | [] => ""
  | [item] => item.compact
  | item :: rest => item.compact ++ "," ++ compactItems rest

/-- The fields of an object, with commas between them. -/
def compactFields : List (JsonString × Json) → String
  | [] => ""
  | [(name, value)] => quoted name ++ ":" ++ value.compact
  | (name, value) :: rest => quoted name ++ ":" ++ value.compact ++ "," ++ compactFields rest

end

/-- A line break, and the blanks of a depth. -/
def newLine (depth : Nat) : String :=
  String.ofList ('\n' :: List.replicate (2 * depth) ' ')

mutual

/-- The text of a value that starts at a depth, each item on a line of its own. -/
def prettyAt (depth : Nat) : Json → String
  | null => "null"
  | bool true => "true"
  | bool false => "false"
  | number text => text
  | string value => quoted value
  | array [] => "[]"
  | array items => "[" ++ prettyItems (depth + 1) items ++ newLine depth ++ "]"
  | object [] => "\x7b\x7d"
  | object fields => "\x7b" ++ prettyFields (depth + 1) fields ++ newLine depth ++ "\x7d"

/-- The items of an array, one a line. -/
def prettyItems (depth : Nat) : List Json → String
  | [] => ""
  | [item] => newLine depth ++ item.prettyAt depth
  | item :: rest => newLine depth ++ item.prettyAt depth ++ "," ++ prettyItems depth rest

/-- The fields of an object, one a line. -/
def prettyFields (depth : Nat) : List (JsonString × Json) → String
  | [] => ""
  | [(name, value)] => newLine depth ++ quoted name ++ ": " ++ value.prettyAt depth
  | (name, value) :: rest =>
    newLine depth ++ quoted name ++ ": " ++ value.prettyAt depth ++ "," ++ prettyFields depth rest

end

/-- The text of a value, each item on a line of its own. -/
def pretty (json : Json) : String :=
  json.prettyAt 0

end Json

end Almanac
