import Almanac.Proofs.Overwriting
import Almanac.Proofs.Rule.Reading

/-!
# The last assignment to a part counts

A draft changes by assignments, each of which sets one part. This file fixes

* **the part that an assignment sets** (`Assignment.part`): the two ends of a series are one part, and
  each extra part is one of its own;
* **assignments overwrite by their parts** (`Draft.overwrites_assign`). An extra part is put among
  ascending names, where it takes the place of one with its own name and lets all others be
  (`RuleParts.putExtra_putExtra`, `RuleParts.putExtra_comm`);
* the name of a token tells the part that the token sets (`Assignment.part_of_ofPart`), and names tell
  the same part when they are the same name, `COUNT` and `UNTIL` being one (`DraftPart.ofName_eq_iff`).
-/

namespace Almanac

/-! ## 1. Extra parts -/

namespace RuleParts

variable {name other value kept : String} {rest : List (String × String)}

theorem putExtra_of_lt (before : name < other) :
    putExtra name value ((other, kept) :: rest) = (name, value) :: (other, kept) :: rest :=
  if_pos before

theorem putExtra_of_gt (behind : other < name) :
    putExtra name value ((other, kept) :: rest) = (other, kept) :: putExtra name value rest := by
  rw [putExtra, if_neg (String.lt_asymm behind), if_neg]
  intro same
  exact String.lt_irrefl name (same ▸ behind)

theorem putExtra_own (name value kept : String) (rest : List (String × String)) :
    putExtra name value ((name, kept) :: rest) = (name, value) :: rest := by
  rw [putExtra, if_neg (String.lt_irrefl name), if_pos rfl]

theorem lt_or_eq_or_gt (name other : String) : name < other ∨ name = other ∨ other < name := by
  by_cases before : name < other
  · exact .inl before
  · by_cases behind : other < name
    · exact .inr (.inr behind)
    · exact .inr (.inl (String.le_antisymm (String.not_lt.mp behind) (String.not_lt.mp before)))

/-- **What is put under a name overwrites what was put under it.** -/
theorem putExtra_putExtra (name value kept : String) (extras : List (String × String)) :
    putExtra name value (putExtra name kept extras) = putExtra name value extras := by
  induction extras with
  | nil => exact putExtra_own name value kept []
  | cons part rest ih =>
    obtain ⟨other, old⟩ := part
    obtain before | rfl | behind := lt_or_eq_or_gt name other
    · rw [putExtra_of_lt before, putExtra_own, putExtra_of_lt before]
    · rw [putExtra_own, putExtra_own, putExtra_own]
    · rw [putExtra_of_gt behind, putExtra_of_gt behind, ih, putExtra_of_gt behind]

theorem putExtra_comm_of_lt (before : name < other) (value kept : String)
    (extras : List (String × String)) :
    putExtra name value (putExtra other kept extras) =
      putExtra other kept (putExtra name value extras) := by
  induction extras with
  | nil =>
    show putExtra name value [(other, kept)] = putExtra other kept [(name, value)]
    rw [putExtra_of_lt before, putExtra_of_gt before]
    rfl
  | cons part rest ih =>
    obtain ⟨first, old⟩ := part
    obtain front | rfl | back := lt_or_eq_or_gt name first
    · -- the lesser name goes in front, whatever the greater one meets behind it
      rw [putExtra_of_lt front, putExtra_of_gt before]
      obtain lt | rfl | gt := lt_or_eq_or_gt other first
      · rw [putExtra_of_lt lt, putExtra_of_lt before]
      · rw [putExtra_own, putExtra_of_lt before]
      · rw [putExtra_of_gt gt, putExtra_of_lt front]
    · rw [putExtra_of_gt before, putExtra_own, putExtra_own, putExtra_of_gt before]
    · have further := String.lt_trans back before
      rw [putExtra_of_gt further, putExtra_of_gt back, putExtra_of_gt back, putExtra_of_gt further, ih]

/-- **What is put under two names can be put in either order.** -/
theorem putExtra_comm (differ : name ≠ other) (value kept : String)
    (extras : List (String × String)) :
    putExtra name value (putExtra other kept extras) =
      putExtra other kept (putExtra name value extras) := by
  obtain before | same | behind := lt_or_eq_or_gt name other
  · exact putExtra_comm_of_lt before value kept extras
  · exact absurd same differ
  · exact (putExtra_comm_of_lt behind kept value extras).symm

end RuleParts

/-! ## 2. Parts of a draft -/

/-- A part of a draft that an assignment sets. -/
inductive DraftPart where
  | frequency
  | interval
  | ending
  | weekStart
  | scale
  | skip
  | months
  | weekNumbers
  | yearDays
  | monthDays
  | days
  | hours
  | minutes
  | seconds
  | positions
  | extra (name : String)
deriving DecidableEq

/-- The part that an assignment sets. -/
def Assignment.part : Assignment → DraftPart
  | .frequency _ => .frequency
  | .interval _ => .interval
  | .count _ => .ending
  | .last _ => .ending
  | .weekStart _ => .weekStart
  | .scale _ => .scale
  | .skip _ => .skip
  | .months _ => .months
  | .weekNumbers _ => .weekNumbers
  | .yearDays _ => .yearDays
  | .monthDays _ => .monthDays
  | .days _ => .days
  | .hours _ => .hours
  | .minutes _ => .minutes
  | .seconds _ => .seconds
  | .positions _ => .positions
  | .extra name _ => .extra name

/-- The part that a name tells. -/
def DraftPart.ofName : String → DraftPart
  | "FREQ" => .frequency
  | "UNTIL" => .ending
  | "COUNT" => .ending
  | "INTERVAL" => .interval
  | "WKST" => .weekStart
  | "RSCALE" => .scale
  | "SKIP" => .skip
  | "BYSECOND" => .seconds
  | "BYMINUTE" => .minutes
  | "BYHOUR" => .hours
  | "BYDAY" => .days
  | "BYMONTHDAY" => .monthDays
  | "BYYEARDAY" => .yearDays
  | "BYWEEKNO" => .weekNumbers
  | "BYMONTH" => .months
  | "BYSETPOS" => .positions
  | name => .extra name

/-- A name of a part. -/
def DraftPart.name : DraftPart → String
  | .frequency => "FREQ"
  | .ending => "COUNT"
  | .interval => "INTERVAL"
  | .weekStart => "WKST"
  | .scale => "RSCALE"
  | .skip => "SKIP"
  | .seconds => "BYSECOND"
  | .minutes => "BYMINUTE"
  | .hours => "BYHOUR"
  | .days => "BYDAY"
  | .monthDays => "BYMONTHDAY"
  | .yearDays => "BYYEARDAY"
  | .weekNumbers => "BYWEEKNO"
  | .months => "BYMONTH"
  | .positions => "BYSETPOS"
  | .extra name => name

/-- A name of a part, with one for the two ends of a series. -/
def partName (name : String) : String :=
  if name = "UNTIL" then "COUNT" else name

namespace DraftPart

theorem name_ofName (name : String) : (ofName name).name = partName name := by
  unfold ofName
  split
  case h_17 => exact (if_neg (by assumption)).symm
  all_goals rfl

theorem ofName_partName (name : String) : ofName (partName name) = ofName name := by
  unfold partName
  split
  case isTrue last => rw [last]; rfl
  case isFalse => rfl

/-- **Names tell the same part when they are the same**, the ends of a series taken as one. -/
theorem ofName_eq_iff {name other : String} :
    ofName name = ofName other ↔ partName name = partName other := by
  refine ⟨fun same => ?_, fun same => ?_⟩
  · rw [← name_ofName, same, name_ofName]
  · rw [← ofName_partName, same, ofName_partName]

end DraftPart

/-- **The name of a token tells the part that the token sets.** -/
theorem Assignment.part_of_ofPart {s : Settings} {name value : String} {a : Assignment}
    (read : ofPart s name value = .ok a) : a.part = DraftPart.ofName name := by
  unfold ofPart at read
  split at read
  case h_17 =>
    split at read
    · cases read
      unfold DraftPart.ofName
      split
      all_goals first | rfl | contradiction
    · cases read
  all_goals
    obtain ⟨_, -, rfl⟩ := Results.map_eq_ok read
    rfl

namespace Draft

variable {a b : Assignment}

/-- **An assignment undoes an earlier one to its part.** -/
theorem assign_assign (d : Draft) (same : a.part = b.part) :
    (d.assign a).assign b = d.assign b := by
  cases a <;> cases b <;> cases same
  case extra.extra.refl name kept value =>
    simp only [assign, RuleParts.putExtra_putExtra]
  all_goals rfl

/-- **Assignments to different parts commute.** -/
theorem assign_comm (d : Draft) (apart : a.part ≠ b.part) :
    (d.assign a).assign b = (d.assign b).assign a := by
  cases a <;> cases b <;> simp only [Assignment.part, ne_eq, not_true_eq_false] at apart
  case extra.extra name value other kept =>
    have differ : other ≠ name := fun same => apart (same ▸ rfl)
    simp only [assign, RuleParts.putExtra_comm differ kept value]
  all_goals rfl

/-- **The last assignment to a part counts.** -/
theorem overwrites_assign : Overwrites assign Assignment.part where
  undo d _ _ same := d.assign_assign same
  apart d _ _ apart := d.assign_comm apart

end Draft

end Almanac
