import Almanac.Fault
import Almanac.Text.Blank

/-!
# Reading amounts

An amount is an optional sign, the letter `P`, and one of two bodies:

* **nominal**: years, months, weeks and days, `nYnMnWnD`, at least one of them; weeks count as seven
  days, and each of the three sums has to fit its field with the sign;
* **exact**: an optional `nD`, the letter `T`, and hours, minutes and seconds, `nHnMnS`, at least
  one of them; days count as 86400 seconds.

Within a body each letter stands at most once, in the order given, with digits right before it
(`components?`).
-/

namespace Almanac

namespace Amount

/-- The largest number that may stand before a letter. -/
def componentMax : Nat := 9223372036854775807

/-- A number in front of a text, with the letter after it, and the rest. -/
def tagged? (letter : Char) (cs : List Char) : Option (Nat × List Char) :=
  let digits := cs.takeWhile Char.isDigit
  match cs.dropWhile Char.isDigit with
  | [] => none
  | c :: rest =>
    if c = letter then
      ((Numeral.digits? digits).filter (· ≤ componentMax)).map fun n => (n, rest)
    else none

/-- The numbers that stand before the letters of a whole text, zero for each letter that is not
    there. -/
def components? : (letters cs : List Char) → Option (List Nat)
  | [], cs => if cs.isEmpty then some [] else none
  | letter :: letters, cs =>
    match tagged? letter cs with
    | some (n, rest) => (components? letters rest).map (n :: ·)
    | none => (components? letters cs).map (0 :: ·)

/-- A part of a nominal amount with its sign, if it fits. -/
def nominalPart? (negative : Bool) (n : Nat) : Option Int32 :=
  let value : Int := if negative then -n else n
  if Numeral.signedMin ≤ value ∧ value ≤ Numeral.signedMax then some (Int32.ofInt value) else none

/-- The nominal amount with the numbers of its body. -/
def ofNominalNumbers? (negative : Bool) (years months weeks days : Nat) : Option Amount := do
  let years ← nominalPart? negative years
  let months ← nominalPart? negative months
  let days ← nominalPart? negative (weeks * 7 + days)
  return nominal ⟨years, months, days⟩

/-- The exact amount with the numbers of its body. -/
def ofExactNumbers? (negative : Bool) (days hours minutes seconds : Nat) : Option Amount :=
  let total : Int := (days * 86400 + hours * 3600 + minutes * 60 + seconds : Nat)
  (Elapsed.ofSeconds? (if negative then -total else total)).map exact

/-- The amount that the text after the sign and the `P` writes. -/
def ofBody? (negative : Bool) (body : List Char) : Option Amount :=
  if body.isEmpty then none
  else
    match components? ['Y', 'M', 'W', 'D'] body with
    | some [years, months, weeks, days] => ofNominalNumbers? negative years months weeks days
    | _ => do
      let (dayPart, timePart) ← Text.cut? 'T' body
      guard !timePart.isEmpty
      match components? ['D'] dayPart, components? ['H', 'M', 'S'] timePart with
      | some [days], some [hours, minutes, seconds] =>
        ofExactNumbers? negative days hours minutes seconds
      | _, _ => none

/-- The amount a text writes. -/
def read? : List Char → Option Amount
  | '-' :: 'P' :: body => ofBody? true body
  | '+' :: 'P' :: body => ofBody? false body
  | 'P' :: body => ofBody? false body
  | _ => none

/-- The amount a text writes. -/
def parse (value : String) : Except Fault Amount :=
  match read? value.toList with
  | some amount => .ok amount
  | none => .error (.malformedAmount value)

end Amount

/-- A nominal amount with the given parts, which must not point both ways. -/
def Nominal.ofParts (years months days : Int32) : Except Fault Nominal :=
  let n : Nominal := ⟨years, months, days⟩
  if n.hasPositivePart ∧ n.isNegative then .error (.mixedSigns n) else .ok n

end Almanac
