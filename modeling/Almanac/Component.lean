import Almanac.PeriodList.Basic
import Almanac.Rule.Series

/-!
# Recurring components

An entry of a calendar that may take place more than once. This file fixes

* **how long an instance lasts** (`Component.duration`): the length that is given, or else what lies
  between the start and the end, or the due value, or else no time at all;
* **the instances that overlap a window** (`Component.instances`): explicit additions, and the
  series of every rule from one duration before the window on, so that instances under way are
  found. An entry without rules takes place at its own start;
* exceptions take instances away by their start (`excludes`): a date takes all that start on that
  day, every other value the ones that start at that very time.
-/

namespace Almanac

/-- An instance that is added to those of the rules. -/
inductive Addition where
  /-- An instance with its own start, as long as all others. -/
  | instant (start : Temporal)
  /-- An instance with its own start and its own end. -/
  | period (span : Period)
deriving DecidableEq

/-- An entry of a calendar, with all that says when it takes place. -/
structure Component where
  start : Temporal
  stop : Option Temporal
  due : Option Temporal
  length : Option Amount
  additions : List Addition
  rules : List Rule
  exceptions : List Temporal
  exceptionRules : List Rule

/-- Whether an exception takes away an instance with a start. -/
def excludes (exception start : Temporal) : Bool :=
  match exception with
  | .date d => start.toDate = d
  | _ => (Comparator.forSeed start).equal exception start

namespace Component

/-- The entry that takes place once, at a start. -/
def once (start : Temporal) : Component := ⟨start, none, none, none, [], [], [], []⟩

/-- How long an instance lasts. -/
def duration (c : Component) : Amount :=
  match c.length, c.stop <|> c.due with
  | some length, _ => length
  | none, some stop => Amount.between c.start stop
  | none, none => Amount.zeroFor c.start

/-- The instance at the entry's own start. -/
def first (c : Component) : Except Fault Period :=
  match c.length, c.stop with
  | none, some stop => Period.between c.start stop
  | _, _ => Period.lasting c.start c.duration

/-- The instance that an addition brings to a window, if it lies there. -/
def added (c : Component) (window : Period) : Addition → Except Fault (Option Period)
  | .period span => .ok (if window.intersects span then some span else none)
  | .instant start =>
    if window.includes start then (Period.lasting start c.duration).map some else .ok none

/-- The occurrences of some rules that an instance in the window can start at. -/
def starts (c : Component) (searchStart : Temporal) (window : Period) (rules : List Rule) :
    List Temporal :=
  rules.flatMap fun r => r.dates c.start searchStart window.stop none

/-- The instances that are due by rule, or by the entry's own start if there are no rules. -/
def regular (c : Component) (searchStart : Temporal) (window : Period) :
    Except Fault (List Period) :=
  if c.rules.isEmpty then c.first.map fun p => if window.intersects p then [p] else []
  else (c.starts searchStart window c.rules).mapM fun start => Period.lasting start c.duration

/-- **The instances that overlap a window.** -/
def instances (c : Component) (window : Period) : Except Fault PeriodList := do
  let additions ← c.additions.mapM (c.added window)
  let searchStart ← window.start.minus c.duration
  let regular ← c.regular searchStart window
  let exceptions := c.exceptions ++ c.starts searchStart window c.exceptionRules
  return (PeriodList.empty.insertAll (additions.filterMap id ++ regular)).filter fun p =>
    !exceptions.any fun exception => excludes exception p.start

end Component

end Almanac
