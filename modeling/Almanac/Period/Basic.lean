import Almanac.Temporal.Arithmetic
import Almanac.Temporal.Comparator

/-!
# Periods

A period runs from a start to a stop. This file fixes

* a period built from a start and a length keeps that length for its text (`Period.length`); the
  stop is worked out at once. Without one, the length is what lies between the bounds;
* the relations between periods (`intersects`, `contains`, `adjacent`) compare whole seconds in the
  zone of the period that is asked. Periods that merely touch do not intersect;
* `Period.pieces` is what one period leaves of another: at most two spans. Date periods are never
  cut;
* the order of periods goes by start, by stop, and then by length, and two periods are the same when
  none of the three tells them apart.
-/

namespace Almanac

/-- A span of time. -/
structure Period where
  start : Temporal
  stop : Temporal
  length : Option Amount
deriving DecidableEq, Inhabited

namespace Period

/-! ## 1. Making periods -/

/-- The span between two values. -/
def span (start stop : Temporal) : Period := ⟨start, stop, none⟩

/-- The period between two values, the second of which must not come before the first. -/
def between (start stop : Temporal) : Except Fault Period :=
  if (Comparator.toTheSecond start).before stop start then .error (.endBeforeStart stop start)
  else .ok (span start stop)

/-- The period with a start and a length, which must not be negative. -/
def lasting (start : Temporal) (length : Amount) : Except Fault Period :=
  if length.isNegative then .error (.negativeLength length)
  else (start.plus length).map fun stop => ⟨start, stop, some length⟩

/-- The period with its floating bounds bound to a zone. -/
def bindTo (zone : Zone) (p : Period) : Period :=
  { p with start := p.start.bindTo zone, stop := p.stop.bindTo zone }

/-! ## 2. Single periods -/

/-- The comparator that a period's relations use. -/
def comparator (p : Period) : Comparator :=
  Comparator.toTheSecond p.start

/-- The length a period was built with, or else the one between its bounds. -/
def duration (p : Period) : Amount :=
  p.length.getD (Amount.between p.start p.stop)

/-- Whether the start has a time of day. -/
def isDateTime (p : Period) : Bool :=
  p.start.isDateTime

/-- Whether nothing lies between the bounds; for a date period, whether both are on one day. -/
def isEmpty (p : Period) : Bool :=
  if p.isDateTime then p.comparator.equal p.start p.stop
  else p.start.toDate = p.stop.toDate

/-! ## 3. Relations -/

/-- Whether a value is a bound of the period or lies between its bounds. -/
def includes (p : Period) (t : Temporal) : Bool :=
  let c := p.comparator
  !c.before t p.start && !c.after t p.stop

/-- Whether two periods have the same bounds, or more in common than a bound. -/
def intersects (p q : Period) : Bool :=
  let c := p.comparator
  (c.equal p.start q.start && c.equal p.stop q.stop) ||
    (c.before p.start q.stop && c.before q.start p.stop)

/-- Whether no part of `q` lies outside `p`. -/
def contains (p q : Period) : Bool :=
  let c := p.comparator
  !c.after p.start q.start && !c.before p.stop q.stop

/-- Whether one period stops exactly where the other starts. -/
def adjacent (p q : Period) : Bool :=
  let c := p.comparator
  c.equal p.stop q.start || c.equal q.stop p.start

/-! ## 4. Combinations -/

/-- The smallest span that covers both periods. -/
def cover (p q : Period) : Period :=
  let c := p.comparator
  span (c.earlier p.start q.start) (c.later p.stop q.stop)

/-- What `q` leaves of `p`. -/
def pieces (p q : Period) : List Period :=
  let c := p.comparator
  if !p.isDateTime || !p.intersects q then [p]
  else if q.contains p then []
  else if !c.after q.start p.start then [span q.stop p.stop]
  else if !c.before q.stop p.stop then [span p.start q.start]
  else [span p.start q.start, span q.stop p.stop]

/-! ## 5. Order -/

/-- The order of periods. -/
def compare : Period → Period → Ordering :=
  compareLex (fun p q => Temporal.compare p.start q.start)
    (compareLex (fun p q => Temporal.compare p.stop q.stop)
      (fun p q => Amount.compare p.duration q.duration))

instance : Ord Period := ⟨compare⟩

/-- Whether the order does not tell two periods apart. -/
def same (p q : Period) : Bool :=
  compare p q = .eq

end Period

/-! ## 6. The orders are lawful -/

instance : Std.TransCmp Temporal.compare :=
  inferInstanceAs (Std.TransCmp (compareLex (compareOn fun t : Temporal =>
    (t.instantIn Zone.utc).rank) (compareOn Temporal.kindRank)))

namespace Period

theorem compare_eq_then (p q : Period) : compare p q = (Temporal.compare p.start q.start).then
    ((Temporal.compare p.stop q.stop).then (Amount.compare p.duration q.duration)) := rfl

/-- The order of a view is lawful when the order of what is seen is. -/
theorem transCmp_view {α β : Type} (f : α → β) (cmp : β → β → Ordering) [Std.TransCmp cmp] :
    Std.TransCmp fun a b => cmp (f a) (f b) where
  eq_swap := fun {a b} => @Std.OrientedCmp.eq_swap β cmp _ (f a) (f b)
  isLE_trans := fun {a b c} => @Std.TransCmp.isLE_trans β cmp _ (f a) (f b) (f c)

instance : Std.TransCmp compare :=
  have := transCmp_view Period.start Temporal.compare
  have := transCmp_view Period.stop Temporal.compare
  have := transCmp_view Period.duration Amount.compare
  inferInstanceAs (Std.TransCmp (compareLex (fun p q : Period => Temporal.compare p.start q.start)
    (compareLex (fun p q => Temporal.compare p.stop q.stop)
      (fun p q => Amount.compare p.duration q.duration))))

/-! ## 7. Periods that can be made -/

variable {start stop : Temporal} {length : Amount} {p : Period}

/-- Two values make a period when the second does not come before the first. -/
theorem between_eq_ok_iff : between start stop = .ok p ↔
    (Comparator.toTheSecond start).before stop start = false ∧ p = span start stop := by
  unfold between
  cases (Comparator.toTheSecond start).before stop start with
  | true => simp
  | false => simp [eq_comm]

/-- A length makes a period when it is not negative and leads to a stop. -/
theorem lasting_eq_ok_iff : lasting start length = .ok p ↔
    length.isNegative = false ∧ ∃ stop, start.plus length = .ok stop ∧
      p = ⟨start, stop, some length⟩ := by
  unfold lasting
  cases length.isNegative with
  | true => simp
  | false =>
    cases start.plus length with
    | error fault => simp [Except.map]
    | ok stop => simp [Except.map, eq_comm]

end Period

end Almanac
