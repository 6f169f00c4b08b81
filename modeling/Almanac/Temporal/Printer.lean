import Almanac.Temporal.Basic
import Almanac.Text.Numeral

/-!
# Temporal text

Dates are written `yyyymmdd`, civil times `yyyymmddThhmmss`, and UTC instants carry a final `Z`. A
zoned value shows its local time only: its zone travels apart from the text.

Years 0 to 9999 have four digits. Every other year has a sign and at least four digits. A leap
second is written `60`.
-/

namespace Almanac

/-- The digits of a year. -/
def yearText (year : Int) : List Char :=
  if 0 ≤ year ∧ year ≤ 9999 then Numeral.padded 4 year.toNat
  else (if year < 0 then '-' else '+') :: Numeral.atLeast 4 year.natAbs

/-- The date as `yyyymmdd`. -/
def Date.chars (date : Date) : List Char :=
  yearText date.year ++ Numeral.padded 2 date.month ++ Numeral.padded 2 date.dayOfMonth

/-- The time of day as `hhmmss`. -/
def Civil.clockChars (c : Civil) : List Char :=
  Numeral.padded 2 c.hour ++ Numeral.padded 2 c.minute ++
    Numeral.padded 2 (if c.leap then c.second + 1 else c.second)

/-- The civil time as `yyyymmddThhmmss`. -/
def Civil.chars (c : Civil) : List Char :=
  c.date.chars ++ 'T' :: c.clockChars

namespace Temporal

/-- The characters of a value's text. -/
def chars : Temporal → List Char
  | date d => d.chars
  | floating c => c.chars
  | utc i => i.chars ++ ['Z']
  | zoned z => z.localTime.chars

/-- The text of a value. -/
def text (t : Temporal) : String :=
  String.ofList t.chars

/-- The text of a value as seen from a zone: only a zoned value reads differently there. -/
def textFrom (zone : Zone) : Temporal → String
  | zoned z => String.ofList (zone.localTime z.instant).chars
  | t => t.text

instance : ToString Temporal := ⟨text⟩

end Temporal

end Almanac
