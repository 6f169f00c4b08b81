import Almanac.Calendar.Civil

/-!
# Amounts of time

An amount is either nominal or exact, and the two behave differently. This file fixes

* **a nominal amount** (`Nominal`) counts years, months and days, and moves the fields of the
  calendar: the length of a month depends on where it starts;
* **an exact amount** (`Elapsed`) is a number of seconds that elapse, at most `Elapsed.limit` of
  them in either direction;
* the order of amounts (`Amount.compare`) puts the negative ones first. Among the others an exact
  amount comes before a nominal one; nominal amounts are compared field by field, exact ones by
  length. Below zero the order is turned around.
-/

namespace Almanac

/-! ## 1. Nominal amounts -/

/-- Years, months and days. Amounts that are read or built have one sign throughout. -/
structure Nominal where
  years : Int32
  months : Int32
  days : Int32
deriving DecidableEq, Inhabited

namespace Nominal

/-- No time at all. -/
def zero : Nominal := ⟨0, 0, 0⟩

/-- A number of days. -/
def ofDays (days : Int32) : Nominal := ⟨0, 0, days⟩

/-- Years and months, as months. -/
def totalMonths (n : Nominal) : Int :=
  n.years.toInt * 12 + n.months.toInt

/-- Whether some part is above zero. -/
def hasPositivePart (n : Nominal) : Bool :=
  0 < n.years || 0 < n.months || 0 < n.days

/-- Whether some part is below zero. -/
def isNegative (n : Nominal) : Bool :=
  n.years < 0 || n.months < 0 || n.days < 0

/-- Each part with its sign turned. -/
def negated (n : Nominal) : Nominal :=
  ⟨-n.years, -n.months, -n.days⟩

/-- The civil time that many months and then that many days on. -/
def addTo? (n : Nominal) (civil : Civil) : Option Civil := do
  let shifted ← civil.addMonths? n.totalMonths
  shifted.addDays? n.days.toInt

end Nominal

/-! ## 2. Exact amounts -/

/-- A number of seconds that elapse. -/
structure Elapsed where
  seconds : Int
  within : seconds.natAbs ≤ 9223372036854775
deriving DecidableEq

namespace Elapsed

/-- No time at all. -/
def zero : Elapsed := ⟨0, by decide⟩

instance : Inhabited Elapsed := ⟨zero⟩

/-- The amount with a number of seconds, unless it is too long to be kept. -/
def ofSeconds? (seconds : Int) : Option Elapsed :=
  if h : seconds.natAbs ≤ 9223372036854775 then some ⟨seconds, h⟩ else none

theorem ofSeconds?_eq_some_iff {seconds : Int} {e : Elapsed} :
    ofSeconds? seconds = some e ↔ e.seconds = seconds := by
  unfold ofSeconds?
  constructor
  · intro h
    obtain ⟨_, own⟩ := Option.dite_none_right_eq_some.mp h
    rw [← Option.some.inj own]
  · intro own
    cases own
    rw [dif_pos e.within]

/-- The amount in the other direction. -/
def negated (e : Elapsed) : Elapsed :=
  ⟨-e.seconds, by rw [Int.natAbs_neg]; exact e.within⟩

/-- The time from one civil time to another; the calendar is short enough for all of them. -/
def between (start stop : Civil) : Elapsed where
  seconds := stop.secondsSince start
  within := by
    have := start.first_le
    have := start.le_last
    have := stop.first_le
    have := stop.le_last
    simp only [firstStamp, lastStamp] at *
    unfold Civil.secondsSince
    split <;> split <;> omega

/-- Whole days, the rest dropped. -/
def wholeDays (e : Elapsed) : Int :=
  e.seconds.tdiv 86400

/-- Whole minutes, the rest dropped. -/
def wholeMinutes (e : Elapsed) : Int :=
  e.seconds.tdiv 60

end Elapsed

/-! ## 3. Amounts -/

/-- A nominal or an exact amount of time. -/
inductive Amount where
  | nominal (amount : Nominal)
  | exact (amount : Elapsed)
deriving DecidableEq, Inhabited

namespace Amount

/-- Whether the amount goes back in time. -/
def isNegative : Amount → Bool
  | nominal n => n.isNegative
  | exact e => e.seconds < 0

/-- Whether the amount is no time at all. -/
def isZero : Amount → Bool
  | nominal n => n = Nominal.zero
  | exact e => e.seconds = 0

/-- The amount in the other direction. -/
def negated : Amount → Amount
  | nominal n => nominal n.negated
  | exact e => exact e.negated

/-- The amount, turned forward in time. -/
def magnitude (a : Amount) : Amount :=
  if a.isNegative then a.negated else a

/-! ## 4. Order -/

/-- The order of nominal amounts that go forward: field by field, the weightiest first. -/
def compareFields : Nominal → Nominal → Ordering :=
  compareLex (compareOn Nominal.years) (compareLex (compareOn Nominal.months) (compareOn Nominal.days))

/-- The order of amounts that go forward: an exact one comes before a nominal one. -/
def compareForward : Amount → Amount → Ordering
  | nominal m, nominal n => compareFields m n
  | exact e, exact f => compareOn Elapsed.seconds e f
  | nominal _, exact _ => .gt
  | exact _, nominal _ => .lt

/-- The order of amounts: the negative ones first. Amounts of one sign are compared as they are turned
    forward, and below zero the answer is turned around. -/
def compare (a b : Amount) : Ordering :=
  match a.isNegative, b.isNegative with
  | true, false => .lt
  | false, true => .gt
  | true, true => (compareForward a.magnitude b.magnitude).swap
  | false, false => compareForward a.magnitude b.magnitude

instance : Ord Amount := ⟨compare⟩

/-! ## 5. The order is lawful -/

instance : Std.TransCmp compareFields :=
  inferInstanceAs (Std.TransCmp (compareLex (compareOn Nominal.years)
    (compareLex (compareOn Nominal.months) (compareOn Nominal.days))))

theorem compareForward_swap (a b : Amount) : compareForward a b = (compareForward b a).swap := by
  cases a with
  | nominal m =>
    cases b with
    | nominal n => exact @Std.OrientedCmp.eq_swap _ compareFields _ m n
    | exact f => rfl
  | exact e =>
    cases b with
    | nominal n => rfl
    | exact f => exact @Std.OrientedCmp.eq_swap _ (compareOn Elapsed.seconds) _ e f

/-- Below a nominal amount there is everything exact, and below an exact one nothing nominal. -/
theorem compareForward_trans {a b c : Amount} (below : (compareForward a b).isLE = true)
    (above : (compareForward b c).isLE = true) : (compareForward a c).isLE = true := by
  cases c with
  | nominal o =>
    cases a with
    | exact e => rfl
    | nominal m =>
      cases b with
      | exact f => cases below
      | nominal n => exact @Std.TransCmp.isLE_trans _ compareFields _ m n o below above
  | exact g =>
    cases b with
    | nominal n => cases above
    | exact f =>
      cases a with
      | nominal m => cases below
      | exact e => exact @Std.TransCmp.isLE_trans _ (compareOn Elapsed.seconds) _ e f g below above

instance : Std.TransCmp compareForward where
  eq_swap := compareForward_swap _ _
  isLE_trans := compareForward_trans

theorem compare_of_signs {a b : Amount} (back : a.isNegative = true) (forward : b.isNegative = false) :
    compare a b = .lt := by
  unfold compare
  rw [back, forward]

theorem compare_of_back {a b : Amount} (ha : a.isNegative = true) (hb : b.isNegative = true) :
    compare a b = (compareForward a.magnitude b.magnitude).swap := by
  unfold compare
  rw [ha, hb]

theorem compare_of_forward {a b : Amount} (ha : a.isNegative = false) (hb : b.isNegative = false) :
    compare a b = compareForward a.magnitude b.magnitude := by
  unfold compare
  rw [ha, hb]

theorem compare_swap (a b : Amount) : compare a b = (compare b a).swap := by
  unfold compare
  cases a.isNegative <;> cases b.isNegative
  case false.true => rfl
  case true.false => rfl
  case false.false => exact compareForward_swap _ _
  case true.true => exact congrArg Ordering.swap (compareForward_swap _ _)

/-- Nothing that goes back in time lies above what does not. -/
theorem isNegative_of_isLE {a b : Amount} (below : (compare a b).isLE = true)
    (hb : b.isNegative = true) : a.isNegative = true := by
  cases ha : a.isNegative with
  | true => rfl
  | false =>
    rw [compare_swap, compare_of_signs hb ha] at below
    cases below

theorem compare_trans {a b c : Amount} (below : (compare a b).isLE = true)
    (above : (compare b c).isLE = true) : (compare a c).isLE = true := by
  cases hc : c.isNegative with
  | true =>
    have hb := isNegative_of_isLE above hc
    have ha := isNegative_of_isLE below hb
    rw [compare_of_back ha hb, Ordering.isLE_swap] at below
    rw [compare_of_back hb hc, Ordering.isLE_swap] at above
    rw [compare_of_back ha hc, Ordering.isLE_swap]
    exact Std.TransCmp.isGE_trans below above
  | false =>
    cases ha : a.isNegative with
    | true => rw [compare_of_signs ha hc]; rfl
    | false =>
      have hb : b.isNegative = false := by
        cases hb : b.isNegative with
        | true => cases ha.symm.trans (isNegative_of_isLE below hb)
        | false => rfl
      rw [compare_of_forward ha hb] at below
      rw [compare_of_forward hb hc] at above
      rw [compare_of_forward ha hc]
      exact compareForward_trans below above

instance : Std.TransCmp compare where
  eq_swap := compare_swap _ _
  isLE_trans := compare_trans

end Amount

end Almanac
