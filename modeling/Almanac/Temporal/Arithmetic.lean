import Almanac.Fault

/-!
# Steps in time

* A nominal amount moves the fields of the calendar in the value's own frame. A zoned value is bound
  to its zone again afterwards, gaps shifting forward.
* An exact amount is elapsed time; a date takes its whole days only.
* `Amount.between` measures the way back: two dates are whole days apart, all other values an exact
  amount.
-/

namespace Almanac

namespace Temporal

/-- The value an amount later, if the calendar reaches that far. -/
def plus? (t : Temporal) : Amount → Option Temporal
  | .nominal n => (n.addTo? t.localTime).bind (t.withCivil .shiftForward)
  | .exact e =>
    match t with
    | date d => (d.addDays? e.wholeDays).map date
    | floating c => (c.addSeconds? e.seconds).map floating
    | utc i => (i.addSeconds? e.seconds).map utc
    | zoned z => (z.instant.addSeconds? e.seconds).map fun i => zoned ⟨i, z.zone⟩

/-- The value an amount later. -/
def plus (t : Temporal) (amount : Amount) : Except Fault Temporal :=
  match t.plus? amount with
  | some sum => .ok sum
  | none => .error (.outsideCalendar t amount)

/-- The value an amount earlier. -/
def minus (t : Temporal) (amount : Amount) : Except Fault Temporal :=
  t.plus amount.negated

end Temporal

namespace Amount

/-- The amount from one value to another. -/
def between : (start stop : Temporal) → Amount
  | .date a, .date b => nominal (Nominal.ofDays (Int32.ofInt (b.day - a.day)))
  | start, stop =>
    let zone := (start.zone? <|> stop.zone?).getD Zone.utc
    exact (Elapsed.between (start.instantIn zone) (stop.instantIn zone))

/-- No time at all, of the kind that separates values like this one. -/
def zeroFor (t : Temporal) : Amount :=
  if t.isDateTime then exact Elapsed.zero else nominal Nominal.zero

end Amount

end Almanac
