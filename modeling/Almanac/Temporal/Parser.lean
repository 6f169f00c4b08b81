import Almanac.Fault
import Almanac.Text.Blank
import Almanac.Zone.Table

/-!
# Reading temporal values

Two readers share this file.

* **The strict reader** takes a date `yyyymmdd`, or a date-time `yyyymmddThhmmss` alone, with a
  final `Z`, or with an offset `±hhmm` or `±hhmmss`; an offset makes the value a UTC instant.
  Every field has exactly its width in digits. When the reader refuses a text it names the byte
  position of the field that failed: 0, 4, 6 for the date, 8 for what should be the `T`, 9, 11, 13
  for the time, 15 for an offset, and 16 for text after a `Z`.
* **The relaxed reader** steps in where the strict one refuses. It takes a civil time to the
  second or to the minute, or a date, from the start of the text, and lets anything follow. A
  field may have blanks before it and fewer digits than its width, a year may have a sign, and a
  second may be 60.
-/

namespace Almanac

namespace Temporal

open Almanac.Text (trimStart)

/-! ## 1. The strict reader -/

/-- A number of exactly `width` digits in front of a text, between `least` and `most`. -/
def field? (width least most : Nat) (cs : List Char) : Option (Nat × List Char) :=
  let digits := cs.take width
  if digits.length = width ∧ digits.all Char.isDigit ∧
      least ≤ Numeral.value digits ∧ Numeral.value digits ≤ most then
    some (Numeral.value digits, cs.drop width)
  else none

/-- As `field?`, for a field at a position of the text, which is the answer when it is not there. -/
def fieldAt (position width least most : Nat) (cs : List Char) : Except Nat (Nat × List Char) :=
  match field? width least most cs with
  | some found => .ok found
  | none => .error position

/-- Seconds that a whole text `±hhmm` or `±hhmmss` is ahead of UTC. -/
def offset? : List Char → Option Int
  | [] => none
  | sign :: cs => do
    guard (sign = '+' ∨ sign = '-')
    let (hours, cs) ← field? 2 0 99 cs
    let (minutes, cs) ← field? 2 0 59 cs
    let (seconds, cs) ← if cs.isEmpty then some (0, []) else field? 2 0 60 cs
    guard cs.isEmpty
    let total : Int := (hours * 3600 + minutes * 60 + seconds : Nat)
    return if sign = '-' then -total else total

/-- The value that a civil time and the text after it stand for. -/
def ofSuffix (civil : Civil) : List Char → Except Nat Temporal
  | [] => .ok (floating civil)
  | ['Z'] => .ok (utc civil)
  | 'Z' :: _ => .error 16
  | suffix =>
    match (offset? suffix).bind fun offset => civil.addSeconds? (-offset) with
    | some instant => .ok (utc instant)
    | none => .error 15

/-- The value that a date and the text after it stand for. -/
def ofTimePart (day : Date) : List Char → Except Nat Temporal
  | [] => .ok (date day)
  | 'T' :: cs => do
    let (hour, cs) ← fieldAt 9 2 0 23 cs
    let (minute, cs) ← fieldAt 11 2 0 59 cs
    let (second, cs) ← fieldAt 13 2 0 59 cs
    ofSuffix (Civil.atClock day hour minute second false) cs
  | _ => .error 8

/-- The value a text writes, or the position at which it stops being one. -/
def readStrict (cs : List Char) : Except Nat Temporal := do
  let (year, cs) ← fieldAt 0 4 0 9999 cs
  let (month, cs) ← fieldAt 4 2 1 12 cs
  let (day, cs) ← fieldAt 6 2 1 31 cs
  match Date.ofFields? year month day with
  | some found => ofTimePart found cs
  | none => .error 6

/-! ## 2. The relaxed reader -/

/-- The one to `width` digits in front of a text, and the rest of it. -/
def digitsUpTo? (width : Nat) (cs : List Char) : Option (Nat × List Char) :=
  let digits := (cs.take width).takeWhile Char.isDigit
  if digits.isEmpty then none else some (Numeral.value digits, cs.drop digits.length)

/-- As `digitsUpTo?`, between `least` and `most`, with blanks allowed before it. -/
def looseField? (width least most : Nat) (cs : List Char) : Option (Nat × List Char) :=
  (digitsUpTo? width (trimStart cs)).filter fun (n, _) => least ≤ n ∧ n ≤ most

/-- A year: up to four digits, or a sign and any number of digits. -/
def looseYear? (cs : List Char) : Option (Int × List Char) :=
  match trimStart cs with
  | '-' :: rest => (digitsUpTo? rest.length rest).map fun (n, after) => (-Int.ofNat n, after)
  | '+' :: rest => (digitsUpTo? rest.length rest).map fun (n, after) => (Int.ofNat n, after)
  | cs => (digitsUpTo? 4 cs).map fun (n, after) => (Int.ofNat n, after)

/-- A date in front of a text. -/
def looseDate? (cs : List Char) : Option (Date × List Char) := do
  let (year, cs) ← looseYear? cs
  let (month, cs) ← looseField? 2 1 12 cs
  let (day, cs) ← looseField? 2 1 31 cs
  let found ← Date.ofFields? year month day
  return (found, cs)

/-- A civil time in front of a text, to the second or to the minute. -/
def looseCivil? (toTheSecond : Bool) (cs : List Char) : Option (Civil × List Char) := do
  let (day, cs) ← looseDate? cs
  guard (cs.head? = some 'T')
  let (hour, cs) ← looseField? 2 0 23 cs.tail
  let (minute, cs) ← looseField? 2 0 59 cs
  let (second, cs) ← if toTheSecond then looseField? 2 0 60 cs else some (0, cs)
  return (Civil.atClock day hour minute (min second 59) (second = 60), cs)

/-- The value at the start of a text; a `Z` right after a civil time makes it an instant. -/
def readRelaxed (cs : List Char) : Option Temporal :=
  match looseCivil? true cs <|> looseCivil? false cs with
  | some (civil, rest) => some (if rest.head? = some 'Z' then utc civil else floating civil)
  | none => (looseDate? cs).map fun (day, _) => date day

/-! ## 3. Entry points -/

/-- The value a text writes; `relaxed` lets the relaxed reader try what the strict one refuses. -/
def parseWith (relaxed : Bool) (value : String) : Except Fault Temporal :=
  match readStrict value.toList with
  | .ok t => .ok t
  | .error position =>
    match (if relaxed then readRelaxed value.toList else none) with
    | some t => .ok t
    | none => .error (.malformedTemporal value position)

/-- The value a text writes. -/
def parse (value : String) : Except Fault Temporal :=
  parseWith false value

/-- The value a text writes, a floating time bound to a zone. -/
def parseIn (zone : Zone) (value : String) : Except Fault Temporal :=
  (parse value).map (bindTo zone)

end Temporal

/-- The zone that a text names; blanks around the name do not count. -/
def Zone.parse (id : String) : Except Fault Zone :=
  match Zone.named? (String.ofList (Text.trim id.toList)) with
  | some zone => .ok zone
  | none => .error (.unknownZone id)

end Almanac
