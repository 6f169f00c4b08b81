import Almanac.Rule.Basic

/-!
# Drafts of rules

A draft is a rule in the making. This file fixes

* **a draft changes by assignments** (`Assignment`), each of which sets one part and leaves all
  others alone, so that of two assignments to one part the later one counts;
* the two ends of a series are one part: a count takes the place of a last value, and the other way
  round. A last value seen in a zone is kept as its UTC instant, the only form that rule text can
  carry;
* `Draft.build` makes the rule, and needs a frequency. Everything else that can be wrong with a
  draft is found by `Rule.build`.
-/

namespace Almanac

/-- A part of a rule and what it is set to. -/
inductive Assignment where
  | frequency (value : Frequency)
  | interval (units : Nat)
  | count (occurrences : Nat)
  | last (value : Temporal)
  | weekStart (day : Weekday)
  | scale (value : Scale)
  | skip (policy : Skip)
  | months (values : List Nat)
  | weekNumbers (values : List Int)
  | yearDays (values : List Int)
  | monthDays (values : List Int)
  | days (values : List DayEntry)
  | hours (values : List Nat)
  | minutes (values : List Nat)
  | seconds (values : List Nat)
  | positions (values : List Int)
  /-- A part that has no meaning here, under its name. -/
  | extra (name value : String)
deriving DecidableEq

/-- A rule in the making. -/
structure Draft where
  frequency : Option Frequency
  parts : RuleParts
  settings : Settings
deriving DecidableEq, Inhabited

namespace Draft

/-- The draft without parts. -/
def blank (settings : Settings) : Draft := ⟨none, .none, settings⟩

/-- The draft that a rule could have been built from. -/
def ofRule (r : Rule) : Draft := ⟨some r.frequency, r.parts, r.settings⟩

/-- A last value in the form that a rule keeps. -/
def keptLast : Temporal → Temporal
  | .zoned z => .utc z.instant
  | t => t

/-- The draft after an assignment. -/
def assign (d : Draft) : Assignment → Draft
  | .frequency f => { d with frequency := some f }
  | .interval n => { d with parts.interval := some n }
  | .count n => { d with parts.ending := some (.count n) }
  | .last t => { d with parts.ending := some (.last (keptLast t)) }
  | .weekStart day => { d with parts.weekStart := some day }
  | .scale s => { d with parts.scale := some s }
  | .skip s => { d with parts.skip := some s }
  | .months ns => { d with parts.months := ns }
  | .weekNumbers ns => { d with parts.weekNumbers := ns }
  | .yearDays ns => { d with parts.yearDays := ns }
  | .monthDays ns => { d with parts.monthDays := ns }
  | .days es => { d with parts.days := es }
  | .hours ns => { d with parts.hours := ns }
  | .minutes ns => { d with parts.minutes := ns }
  | .seconds ns => { d with parts.seconds := ns }
  | .positions ns => { d with parts.positions := ns }
  | .extra name value =>
    { d with parts.extras := RuleParts.putExtra name value d.parts.extras }

/-- The draft after several assignments, one after the other. -/
def assignAll (d : Draft) (as : List Assignment) : Draft :=
  as.foldl assign d

/-- The rule that a draft describes. -/
def build (d : Draft) : Except Fault Rule :=
  match d.frequency with
  | none => .error .missingFrequency
  | some f => Rule.build f d.parts d.settings

/-- A rule is what its own draft builds. -/
@[simp] theorem build_ofRule (r : Rule) : (ofRule r).build = .ok r := by
  obtain ⟨f, p, s, h⟩ := r
  simp only [build, ofRule, Rule.build]
  split
  · rfl
  · rename_i fault hf
    exact absurd (h.symm.trans hf) (by simp)

end Draft

end Almanac
