import Almanac.Proofs.Ascending
import Almanac.Proofs.Rule.Stages
import Mathlib.Data.List.Forall2

/-!
# The lists of a rule are sets

Every BY part of a rule is a list, in the order in which it was written and with every value as often
as it was written. This file shows that neither makes a difference to what the rule finds:

* two lists are the same set when they have the same members (`SameMembers`), and whatever asks a list
  only for its members answers alike;
* **every stage finds the same civil times for the same sets** (`Rule.SameStage`), the ones that expand
  and the ones that limit, and two rules go through the same stages (`Rule.sameStages`);
* after each stage the results are put in order and repetitions dropped, which leaves no trace of the
  order in which they were found (`Rule.runStage_eq`), before the positions pick from them;
* so **an increment has the same civil times** (`Rule.civilCandidates_eq_of_sameSets`).
-/

namespace Almanac

/-! ## 1. Lists as sets -/

/-- Two lists are one set: they have the same members, in any order and however often. -/
def SameMembers {α : Type} (l l' : List α) : Prop := ∀ a, a ∈ l ↔ a ∈ l'

instance {α : Type} [DecidableEq α] (l l' : List α) : Decidable (SameMembers l l') :=
  decidable_of_iff ((∀ a ∈ l, a ∈ l') ∧ ∀ a ∈ l', a ∈ l)
    ⟨fun h a => ⟨h.1 a, h.2 a⟩, fun h => ⟨fun a => (h a).mp, fun a => (h a).mpr⟩⟩

namespace SameMembers

variable {α β : Type} {l l' : List α}

theorem refl (l : List α) : SameMembers l l := fun _ => Iff.rfl

theorem ite (h : SameMembers l l') (common : List α) (p : Prop) [Decidable p] :
    SameMembers (if p then common else l) (if p then common else l') := by
  split
  · exact refl common
  · exact h

theorem isEmpty_eq (h : SameMembers l l') : l.isEmpty = l'.isEmpty := by
  rw [Bool.eq_iff_iff, List.isEmpty_iff, List.isEmpty_iff, List.eq_nil_iff_forall_not_mem,
    List.eq_nil_iff_forall_not_mem]
  exact forall_congr' fun a => not_congr (h a)

theorem any_eq (h : SameMembers l l') (test : α → Bool) : l.any test = l'.any test := by
  rw [Bool.eq_iff_iff, List.any_eq_true, List.any_eq_true]
  exact exists_congr fun a => and_congr_left fun _ => h a

theorem contains_eq [BEq α] [LawfulBEq α] (h : SameMembers l l') (a : α) :
    l.contains a = l'.contains a := by
  rw [Bool.eq_iff_iff, List.contains_iff_mem, List.contains_iff_mem]
  exact h a

theorem filter (h : SameMembers l l') (test : α → Bool) :
    SameMembers (l.filter test) (l'.filter test) := fun a => by
  rw [List.mem_filter, List.mem_filter]
  exact and_congr_left fun _ => h a

theorem map (h : SameMembers l l') (f : α → β) : SameMembers (l.map f) (l'.map f) := fun b => by
  rw [List.mem_map, List.mem_map]
  exact exists_congr fun a => and_congr_left fun _ => h a

theorem filterMap (h : SameMembers l l') (f : α → Option β) :
    SameMembers (l.filterMap f) (l'.filterMap f) := fun b => by
  rw [List.mem_filterMap, List.mem_filterMap]
  exact exists_congr fun a => and_congr_left fun _ => h a

theorem flatMap (h : SameMembers l l') (f : α → List β) :
    SameMembers (l.flatMap f) (l'.flatMap f) := fun b => by
  rw [List.mem_flatMap, List.mem_flatMap]
  exact exists_congr fun a => and_congr_left fun _ => h a

/-- What is found for each value of a list is one set when it is for each value. -/
theorem flatMap_right (l : List α) {f g : α → List β} (h : ∀ a, SameMembers (f a) (g a)) :
    SameMembers (l.flatMap f) (l.flatMap g) := fun b => by
  rw [List.mem_flatMap, List.mem_flatMap]
  exact exists_congr fun a => and_congr_right fun _ => h a b

/-- **In ascending order a set of civil times is one list.** -/
theorem ascending_eq {times times' : List Civil} (h : SameMembers times times') :
    ascending Civil.rank times = ascending Civil.rank times' := by
  have all : ∀ (values : List Civil) c, c ∈ ascending Civil.rank values ↔ c ∈ values := by
    intro values c
    refine ⟨mem_of_mem_ascending, fun hc => ?_⟩
    obtain ⟨b, hb, rank⟩ : ∃ b ∈ ascending Civil.rank values, b.rank = c.rank :=
      exists_mem_ascending hc
    rwa [Civil.rank_injective rank] at hb
  refine eq_of_ascending (pairwise_ascending _ _) (pairwise_ascending _ _) fun c => ?_
  rw [all, all]
  exact h c

end SameMembers

/-- Parts that say the same when each list is taken for a set. A scale and the parts without a meaning
    have no say. -/
structure RuleParts.SameSets (p q : RuleParts) : Prop where
  interval : p.interval = q.interval
  ending : p.ending = q.ending
  weekStart : p.weekStart = q.weekStart
  skip : p.skip = q.skip
  months : SameMembers p.months q.months
  weekNumbers : SameMembers p.weekNumbers q.weekNumbers
  yearDays : SameMembers p.yearDays q.yearDays
  monthDays : SameMembers p.monthDays q.monthDays
  days : SameMembers p.days q.days
  hours : SameMembers p.hours q.hours
  minutes : SameMembers p.minutes q.minutes
  seconds : SameMembers p.seconds q.seconds
  positions : SameMembers p.positions q.positions

namespace Rule

/-! ## 2. Stages -/

/-- Two stages find the same civil times, in any order. -/
def SameStage (f g : Civil → List Civil) : Prop := ∀ c, SameMembers (f c) (g c)

theorem sameStage_keepIf {test test' : Civil → Bool} (h : ∀ c, test c = test' c) :
    SameStage (keepIf test) (keepIf test') := fun c => by
  unfold keepIf
  rw [h c]
  exact .refl _

/-- **The results of a stage do not show in which order it found them.** -/
theorem runStage_eq {f g : Civil → List Civil} (h : SameStage f g) (times : List Civil) :
    runStage times f = runStage times g :=
  (SameMembers.flatMap_right times h).ascending_eq

/-- Nor do the results of one stage after the other. -/
theorem foldl_runStage_eq {fs gs : List (Civil → List Civil)} (h : List.Forall₂ SameStage fs gs)
    (times : List Civil) : fs.foldl runStage times = gs.foldl runStage times := by
  induction h generalizing times with
  | nil => rfl
  | cons first _ ih =>
    rw [List.foldl_cons, List.foldl_cons, runStage_eq first]
    exact ih _

/-- Two sets have a stage each, or both none. -/
theorem sameStages_stageOf {α : Type} {values values' : List α} {f g : Civil → List Civil}
    (h : SameMembers values values') (stage : SameStage f g) :
    List.Forall₂ SameStage (stageOf values f) (stageOf values' g) := by
  unfold stageOf
  rw [h.isEmpty_eq]
  split
  · exact .nil
  · exact .cons stage .nil

theorem sameStage_byClock (expands : Bool) (get : Civil → Nat)
    (set? : Civil → Nat → Option Civil) {values values' : List Nat} (h : SameMembers values values') :
    SameStage (byClock expands get set? values) (byClock expands get set? values') := by
  cases expands with
  | true => exact fun c => h.filterMap (set? c)
  | false => exact sameStage_keepIf fun c => h.contains_eq (get c)

theorem placed_of_sameMembers {places places' : List Int} (h : SameMembers places places')
    (value length : Nat) :
    placed places value length = placed places' value length :=
  h.any_eq _

/-- Whether they limit or expand, the same weekdays are found between two dates. -/
theorem sameMembers_daysWithin (expands : Bool) {entries entries' : List DayEntry}
    (h : SameMembers entries entries') (bounds : Option (Date × Date)) (c : Civil) :
    SameMembers (daysWithin expands entries bounds c) (daysWithin expands entries' bounds c) := by
  unfold daysWithin
  split
  · exact .refl _
  · rename_i first last
    cases expands with
    | true => exact (h.flatMap fun e => e.datesIn first last).map c.onDate
    | false => exact sameStage_keepIf (fun c => (h.filter _).any_eq _) c

section SameSets

variable {r r' : Rule} (hf : r.frequency = r'.frequency) (h : r.parts.SameSets r'.parts)

include h

theorem weekStart_of_sameSets : r.weekStart = r'.weekStart := by
  unfold weekStart
  rw [h.weekStart]

theorem skip_of_sameSets : r.skip = r'.skip := by
  unfold skip
  rw [h.skip]

theorem inListedWeek_of_sameSets (d : Date) : r.inListedWeek d = r'.inListedWeek d := by
  unfold inListedWeek
  simp only [weekStart_of_sameSets h, placed_of_sameMembers h.weekNumbers]

include hf

theorem sameStage_byMonth : SameStage r.byMonth r'.byMonth := fun c => by
  unfold byMonth
  rw [hf]
  dsimp only
  split
  · exact h.months.filterMap _
  · exact sameStage_keepIf (fun c => h.months.contains_eq c.date.month) c

theorem sameStage_byWeekNumber : SameStage r.byWeekNumber r'.byWeekNumber := fun c => by
  unfold byWeekNumber
  simp only [hf, h.months.isEmpty_eq, inListedWeek_of_sameSets h]
  exact .refl _

theorem sameStage_byYearDay : SameStage r.byYearDay r'.byYearDay := fun c => by
  unfold byYearDay
  simp only [hf, h.weekNumbers.isEmpty_eq, h.months.isEmpty_eq]
  split
  · exact h.yearDays.filterMap _
  · exact sameStage_keepIf (fun c => placed_of_sameMembers h.yearDays _ _) c

theorem sameStage_byMonthDay {places places' : List Int} (hp : SameMembers places places') :
    SameStage (r.byMonthDay places) (r'.byMonthDay places') := fun c => by
  unfold byMonthDay
  simp only [hf, h.weekNumbers.isEmpty_eq, h.yearDays.isEmpty_eq, h.months.isEmpty_eq,
    h.monthDays.isEmpty_eq, skip_of_sameSets h]
  split
  · exact .flatMap_right _ fun month => (hp.filterMap _).map c.onDate
  · exact sameStage_keepIf (fun c => placed_of_sameMembers hp _ _) c

theorem dayScope_of_sameSets : r.dayScope = r'.dayScope := by
  unfold dayScope
  simp only [hf, h.weekNumbers.isEmpty_eq, h.yearDays.isEmpty_eq, h.months.isEmpty_eq,
    h.monthDays.isEmpty_eq]

theorem sameStage_byDay {entries entries' : List DayEntry} (he : SameMembers entries entries') :
    SameStage (r.byDay entries) (r'.byDay entries') := fun c => by
  unfold byDay
  rw [dayScope_of_sameSets hf h, weekStart_of_sameSets h]
  cases r'.dayScope with
  | anyWhere => exact sameStage_keepIf (fun c => he.any_eq _) c
  | week =>
    simp only [h.months.isEmpty_eq, h.months.contains_eq]
    split
    · exact .refl _
    · exact ((he.filterMap _).filter _).map c.onDate
  | month expands => exact sameMembers_daysWithin expands he _ c
  | year expands => exact sameMembers_daysWithin expands he _ c

/-! ## 3. Increments -/

theorem sameMembers_monthDaysFor (root : Civil) :
    SameMembers (r.monthDaysFor root) (r'.monthDaysFor root) := by
  unfold monthDaysFor
  simp only [hf, h.weekNumbers.isEmpty_eq, h.yearDays.isEmpty_eq, h.monthDays.isEmpty_eq,
    h.days.isEmpty_eq]
  exact h.monthDays.ite _ _

theorem sameMembers_daysFor (root : Civil) : SameMembers (r.daysFor root) (r'.daysFor root) := by
  unfold daysFor
  simp only [hf, h.weekNumbers.isEmpty_eq, h.yearDays.isEmpty_eq, h.monthDays.isEmpty_eq,
    h.days.isEmpty_eq]
  exact h.days.ite _ _

/-- **Two rules with the same sets go through the same stages.** -/
theorem sameStages (root : Civil) (dateOnly : Bool) :
    List.Forall₂ SameStage (r.stages root dateOnly) (r'.stages root dateOnly) := by
  have monthDays := sameMembers_monthDaysFor hf h root
  have days := sameMembers_daysFor hf h root
  have clock : List.Forall₂ SameStage
      (if dateOnly then [] else stageOf r.parts.hours r.byHour ++
        stageOf r.parts.minutes r.byMinute ++ stageOf r.parts.seconds r.bySecond)
      (if dateOnly then [] else stageOf r'.parts.hours r'.byHour ++
        stageOf r'.parts.minutes r'.byMinute ++ stageOf r'.parts.seconds r'.bySecond) := by
    unfold byHour byMinute bySecond
    rw [hf]
    split
    · exact .nil
    · exact List.rel_append (List.rel_append
        (sameStages_stageOf h.hours (sameStage_byClock _ _ _ h.hours))
        (sameStages_stageOf h.minutes (sameStage_byClock _ _ _ h.minutes)))
        (sameStages_stageOf h.seconds (sameStage_byClock _ _ _ h.seconds))
  unfold stages
  refine List.rel_append (List.rel_append (List.rel_append (List.rel_append (List.rel_append ?_ ?_)
    ?_) ?_) ?_) clock
  · exact sameStages_stageOf h.months (sameStage_byMonth hf h)
  · exact sameStages_stageOf h.weekNumbers (sameStage_byWeekNumber hf h)
  · exact sameStages_stageOf h.yearDays (sameStage_byYearDay hf h)
  · exact sameStages_stageOf monthDays (sameStage_byMonthDay hf h monthDays)
  · exact sameStages_stageOf days (sameStage_byDay hf h days)

omit hf in
/-- The same places pick the same civil times. -/
theorem byPosition_of_sameSets (times : List Civil) : r.byPosition times = r'.byPosition times := by
  unfold byPosition
  rw [h.positions.isEmpty_eq, (h.positions.filterMap _).ascending_eq]

/-- **An increment has the same civil times** for the same sets. -/
theorem civilCandidates_eq_of_sameSets (root period : Civil) (dateOnly : Bool) :
    r.civilCandidates root period dateOnly = r'.civilCandidates root period dateOnly := by
  unfold civilCandidates
  rw [foldl_runStage_eq (sameStages hf h root dateOnly), byPosition_of_sameSets h]

end SameSets

end Rule

end Almanac
