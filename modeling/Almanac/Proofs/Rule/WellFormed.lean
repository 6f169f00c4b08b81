import Almanac.Proofs.Rule.Reading

/-!
# Every rule is well formed

A rule comes from a draft, and a draft from calls in any order, perhaps on a rule that was built before.
Expansion relies on what a rule is and checks nothing again. This file says what that is:

* **the ranges of the parts** (`RuleParts.WellFormed`), value by value. The check that building makes
  finds nothing just when they hold (`RuleParts.fault?_eq_none_iff`);
* **the calls on a draft** (`Draft.Step`) and the drafts that they lead to (`Draft.Made`), those of
  rules that are opened again among them. Each fact about a run of calls comes from one about a call:
  what the end is (`Draft.ending_step`), whether there is a frequency (`Draft.frequency_step`), and that
  the last value is in no zone (`Draft.unzoned_step`);
* **one part for both ends says as much as a field for each** (`Draft.ending_ends`,
  `Draft.ends_stepAll`), where a call that sets the one clears the other;
* what a text makes is such a draft (`Rule.made_of_parseWith`).

Main result: `Rule.wellFormed_of_made`.
-/

namespace Almanac

/-! ## 1. Ranges -/

/-- A number that counts places from either end, up to a bound. -/
def IsSigned (most : Nat) (n : Int) : Prop := n ≠ 0 ∧ n.natAbs ≤ most

namespace RuleParts

/-- **What the parts of a rule are**: every value is in the range of its part, and a skip policy comes
    with a scale. -/
structure WellFormed (p : RuleParts) : Prop where
  seconds : ∀ n ∈ p.seconds, n ≤ 60
  minutes : ∀ n ∈ p.minutes, n ≤ 59
  hours : ∀ n ∈ p.hours, n ≤ 23
  months : ∀ n ∈ p.months, 1 ≤ n ∧ n ≤ 12
  monthDays : ∀ n ∈ p.monthDays, IsSigned 31 n
  yearDays : ∀ n ∈ p.yearDays, IsSigned 366 n
  weekNumbers : ∀ n ∈ p.weekNumbers, IsSigned 53 n
  positions : ∀ n ∈ p.positions, IsSigned 366 n
  days : ∀ e ∈ p.days, e.ordinal = 0 ∨ IsSigned 53 e.ordinal
  interval : ∀ n, p.interval = some n → 1 ≤ n ∧ n ≤ Numeral.unsignedMax
  count : ∀ n, p.count? = some n → 1 ≤ n ∧ n ≤ Numeral.unsignedMax
  skip : p.skip ≠ .none → p.scale ≠ .none

variable {p : RuleParts} {part : RulePart} {range : ValueRange}

theorem outside_eq_none_iff {values : List Int} :
    outside part range values = .none ↔ ∀ v ∈ values, range.contains v = true := by
  unfold outside
  rw [Option.map_eq_none_iff, List.find?_eq_none]
  simp only [Bool.not_eq_true', Bool.not_eq_false]

theorem outsideNat_between_iff {least most : Nat} {values : List Nat} :
    outsideNat part (.between least most) values = .none ↔ ∀ n ∈ values, least ≤ n ∧ n ≤ most := by
  unfold outsideNat
  rw [outside_eq_none_iff, List.forall_mem_map]
  simp only [ValueRange.contains, Bool.and_eq_true, decide_eq_true_eq, Int.ofNat_eq_natCast,
    Int.ofNat_le]

theorem outside_eitherSide_iff {most : Nat} {values : List Int} :
    outside part (.eitherSide most) values = .none ↔ ∀ n ∈ values, IsSigned most n := by
  rw [outside_eq_none_iff]
  simp only [ValueRange.contains, Bool.and_eq_true, decide_eq_true_eq, IsSigned]

theorem outside_ordinals_iff {most : Nat} {entries : List DayEntry} :
    outside part (.eitherSide most) ((entries.map DayEntry.ordinal).filter (· ≠ 0)) = .none ↔
      ∀ e ∈ entries, e.ordinal = 0 ∨ IsSigned most e.ordinal := by
  rw [outside_eitherSide_iff]
  simp only [List.mem_filter, List.mem_map, decide_eq_true_eq]
  constructor
  · intro h e mem
    by_cases plain : e.ordinal = 0
    · exact .inl plain
    · exact .inr (h e.ordinal ⟨⟨e, mem, rfl⟩, plain⟩)
  · intro h n ⟨⟨e, mem, own⟩, counted⟩
    rw [← own] at counted ⊢
    exact (h e mem).resolve_left counted

/-- **The check finds nothing just when every range holds.** -/
theorem fault?_eq_none_iff : p.fault? = .none ↔ p.WellFormed := by
  unfold fault?
  rw [List.findSome?_eq_none_iff]
  unfold checks
  simp only [List.forall_mem_cons, id_eq, outside_ordinals_iff]
  simp only [outsideNat_between_iff, outside_eitherSide_iff, Option.mem_toList]
  have together : (if p.skip.isSome ∧ p.scale.isNone then some Fault.skipWithoutScale else .none) =
      .none ↔ (p.skip ≠ .none → p.scale ≠ .none) := by
    cases p.skip <;> cases p.scale <;> simp
  rw [together]
  constructor
  · intro ⟨seconds, minutes, hours, months, monthDays, yearDays, weekNumbers, positions, days,
      interval, count, skip, _⟩
    exact ⟨fun n mem => (seconds n mem).2, fun n mem => (minutes n mem).2,
      fun n mem => (hours n mem).2, months, monthDays, yearDays, weekNumbers, positions, days,
      interval, count, skip⟩
  · intro h
    exact ⟨fun n mem => ⟨Nat.zero_le n, h.seconds n mem⟩, fun n mem => ⟨Nat.zero_le n, h.minutes n mem⟩,
      fun n mem => ⟨Nat.zero_le n, h.hours n mem⟩, h.months, h.monthDays, h.yearDays, h.weekNumbers,
      h.positions, h.days, h.interval, h.count, h.skip, fun _ mem => absurd mem List.not_mem_nil⟩

end RuleParts

/-! ## 2. Calls -/

/-- What an assignment sets the end of the series to, if it does. -/
def Assignment.ending? : Assignment → Option RuleEnd
  | .count n => some (.count n)
  | .last t => some (.last (Draft.keptLast t))
  | _ => none

namespace Draft

/-- A call on a draft: it sets a part, or the settings. -/
inductive Step where
  | assign (a : Assignment)
  | configure (s : Settings)

/-- The end of the series that a call sets, if it does. -/
def Step.ending? : Step → Option RuleEnd
  | .assign a => a.ending?
  | .configure _ => none

/-- The draft after a call. -/
def step (d : Draft) : Step → Draft
  | .assign a => d.assign a
  | .configure s => { d with settings := s }

/-- The draft after several calls, one after the other. -/
def stepAll (d : Draft) (steps : List Step) : Draft := steps.foldl step d

/-- The drafts that there are: without parts, of a rule that was built, or a call further. -/
inductive Made : Draft → Prop
  | blank (s : Settings) : Made (blank s)
  | reopened {d : Draft} {r : Rule} (made : Made d) (built : d.build = .ok r) : Made (ofRule r)
  | step {d : Draft} (made : Made d) (s : Step) : Made (d.step s)

/-- The end that was set last, or else the one there was. -/
def lastEnding (start : Option RuleEnd) (steps : List Step) : Option RuleEnd :=
  (steps.filterMap Step.ending?).getLast?.or start

/-- A draft with a frequency. -/
def HasFrequency (d : Draft) : Prop := ∃ f, d.frequency = some f

/-- A draft whose last value, if it has one, is in no zone. -/
def Unzoned (d : Draft) : Prop := ∀ t, d.parts.last? = some t → t.zone? = none

variable {d : Draft} {steps : List Step} {r : Rule}

/-- **The end after a call** is the one that the call sets, or else the one before. -/
theorem ending_step (d : Draft) (s : Step) :
    (d.step s).parts.ending = s.ending?.or d.parts.ending := by
  cases s with
  | configure s => rfl
  | assign a => cases a <;> rfl

theorem ending_stepAll (d : Draft) (steps : List Step) :
    (d.stepAll steps).parts.ending = lastEnding d.parts.ending steps := by
  induction steps generalizing d with
  | nil => rfl
  | cons s rest ih =>
    show ((d.step s).stepAll rest).parts.ending = _
    rw [ih, ending_step]
    unfold lastEnding
    cases own : s.ending? with
    | none => rw [List.filterMap_cons_none own, Option.none_or]
    | some e =>
      rw [List.filterMap_cons_some own, List.getLast?_cons]
      cases (rest.filterMap Step.ending?).getLast? <;> rfl

/-- The two ends of a series, each in a field of its own. -/
structure Ends where
  count : Option Nat
  last : Option Temporal

/-- A call on two fields: one that sets an end clears the other, and the rest leave both alone. -/
def Ends.step (e : Ends) : Step → Ends
  | .assign (.count n) => ⟨some n, none⟩
  | .assign (.last t) => ⟨none, some (keptLast t)⟩
  | _ => e

/-- What the fields say of the end. -/
def Ends.ending (e : Ends) : Option RuleEnd := (e.count.map .count).or (e.last.map .last)

/-- The end of a draft, as two fields. -/
def ends (d : Draft) : Ends := ⟨d.parts.count?, d.parts.last?⟩

/-- Nothing is lost between the one part and the two fields, -/
theorem ending_ends (d : Draft) : d.ends.ending = d.parts.ending := by
  unfold ends Ends.ending RuleParts.count? RuleParts.last?
  rcases d.parts.ending with _ | ⟨n⟩ | ⟨t⟩ <;> rfl

theorem ends_step (d : Draft) (s : Step) : (d.step s).ends = d.ends.step s := by
  cases s with
  | configure s => rfl
  | assign a => cases a <;> rfl

/-- and **calls do to the one part what they do to two fields that clear each other.** -/
theorem ends_stepAll (d : Draft) (steps : List Step) :
    (d.stepAll steps).ends = steps.foldl Ends.step d.ends := by
  induction steps generalizing d with
  | nil => rfl
  | cons s rest ih =>
    show ((d.step s).stepAll rest).ends = rest.foldl Ends.step (d.ends.step s)
    rw [ih, ends_step]

/-- A draft has a frequency after a call when it had one or the call sets it. -/
theorem frequency_step (d : Draft) (s : Step) :
    (d.step s).HasFrequency ↔ d.HasFrequency ∨ ∃ f, s = .assign (.frequency f) := by
  unfold HasFrequency
  cases s with
  | configure s => simp [step]
  | assign a => cases a <;> simp [step, assign]

theorem frequency_stepAll (d : Draft) (steps : List Step) :
    (d.stepAll steps).HasFrequency ↔
      d.HasFrequency ∨ ∃ f, .assign (.frequency f) ∈ steps := by
  induction steps generalizing d with
  | nil => simp [stepAll]
  | cons s rest ih =>
    show ((d.step s).stepAll rest).HasFrequency ↔ _
    rw [ih, frequency_step, or_assoc]
    simp only [List.mem_cons, exists_or, eq_comm]

theorem zone?_keptLast (t : Temporal) : (keptLast t).zone? = none := by
  cases t <;> rfl

/-- A last value loses its zone where it is set, and no other call sets one. -/
theorem unzoned_step (h : d.Unzoned) (s : Step) : (d.step s).Unzoned := by
  intro t last
  unfold RuleParts.last? at last
  rw [ending_step] at last
  cases own : s.ending? with
  | none =>
    rw [own, Option.none_or] at last
    exact h t last
  | some e =>
    rw [own] at last
    cases s with
    | configure s => cases own
    | assign a =>
      cases a <;> cases own
      · cases last
      · cases last
        exact zone?_keptLast _

theorem Made.stepAll (made : d.Made) (steps : List Step) : (d.stepAll steps).Made := by
  induction steps generalizing d with
  | nil => exact made
  | cons s rest ih => exact ih (made.step s)

/-- **No draft that there is has a last value in a zone.** -/
theorem Made.unzoned (made : d.Made) : d.Unzoned := by
  induction made with
  | blank s => exact fun _ last => nomatch last
  | @reopened d r _ built ih =>
    obtain ⟨-, parts, -⟩ := build_eq_ok built
    intro t last
    exact ih t (parts ▸ last)
  | step _ s ih => exact unzoned_step ih s

theorem ruleBuild_isOk_iff {f : Frequency} {p : RuleParts} {s : Settings} :
    (∃ r, Rule.build f p s = .ok r) ↔ p.WellFormed := by
  rw [← RuleParts.fault?_eq_none_iff]
  unfold Rule.build
  split
  · rename_i valid
    exact ⟨fun _ => valid, fun _ => ⟨_, rfl⟩⟩
  · rename_i fault found
    rw [found]
    constructor
    · intro ⟨r, h⟩
      cases h
    · intro h
      cases h

/-- **A draft is a rule's just when it has a frequency and its parts are well formed.** -/
theorem build_isOk_iff (d : Draft) :
    (∃ r, d.build = .ok r) ↔ d.HasFrequency ∧ d.parts.WellFormed := by
  unfold build HasFrequency
  cases d.frequency with
  | none =>
    constructor
    · intro ⟨r, h⟩
      cases h
    · intro ⟨⟨f, h⟩, _⟩
      cases h
  | some f => exact ruleBuild_isOk_iff.trans (and_iff_right ⟨f, rfl⟩).symm

end Draft

/-! ## 3. Rules -/

namespace Rule

open Draft

/-- **What every rule is**, with the end that it has: its parts are well formed, it has at most one end,
    its last value is in no zone, and opened again it builds itself. -/
structure IsWellFormed (r : Rule) (ending : Option RuleEnd) : Prop where
  parts : r.parts.WellFormed
  oneEnd : r.parts.count? = none ∨ r.parts.last? = none
  ending : r.parts.ending = ending
  unzoned : ∀ t, r.parts.last? = some t → t.zone? = none
  reopened : (Draft.ofRule r).build = .ok r

theorem count?_eq_none_or_last?_eq_none (p : RuleParts) : p.count? = none ∨ p.last? = none := by
  unfold RuleParts.count? RuleParts.last?
  rcases p.ending with _ | ⟨n⟩ | ⟨t⟩
  · exact .inl rfl
  · exact .inr rfl
  · exact .inl rfl

/-- What is built of calls on a draft is well formed. -/
theorem isWellFormed_of_build {d : Draft} {r : Rule} (made : d.Made) (steps : List Step)
    (built : (d.stepAll steps).build = .ok r) :
    r.IsWellFormed (lastEnding d.parts.ending steps) := by
  obtain ⟨-, parts, -⟩ := build_eq_ok built
  refine ⟨RuleParts.fault?_eq_none_iff.mp r.valid, count?_eq_none_or_last?_eq_none r.parts, ?_, ?_,
    build_ofRule r⟩
  · rw [← parts, ending_stepAll]
  · rw [← parts]
    exact (made.stepAll steps).unzoned

/-- The assignments of a text are calls on the draft without parts. -/
theorem assignAll_eq_stepAll (d : Draft) (as : List Assignment) :
    d.assignAll as = d.stepAll (as.map .assign) := by
  unfold Draft.assignAll Draft.stepAll
  rw [List.foldl_map]
  rfl

/-- What a text is read as comes of calls on the draft without parts, one for each token. -/
theorem build_of_parseWith {s : Settings} {v : String} {r : Rule} (read : parseWith s v = .ok r) :
    ∃ as, (Text.items ';' (body v)).mapM (Assignment.ofToken s) = .ok as ∧
      ((Draft.blank s).stepAll (as.map .assign)).build = .ok r := by
  obtain ⟨as, tokens, built⟩ := Results.bind_eq_ok read
  rw [assignAll_eq_stepAll] at built
  exact ⟨as, tokens, built⟩

/-- **A rule that has been read can be opened again**, as one that has been built. -/
theorem made_of_parseWith {s : Settings} {v : String} {r : Rule} (read : parseWith s v = .ok r) :
    (Draft.ofRule r).Made := by
  obtain ⟨as, -, built⟩ := build_of_parseWith read
  exact .reopened ((Made.blank s).stepAll _) built

/-- The last end that the tokens of a text write. -/
def writtenEnding (s : Settings) (v : String) : Option RuleEnd :=
  ((Text.items ';' (body v)).filterMap fun token =>
    (Assignment.ofToken s token).toOption.bind Assignment.ending?).getLast?

theorem filterMap_ending?_of_tokens {s : Settings} {tokens : List (List Char)}
    {as : List Assignment} (read : tokens.mapM (Assignment.ofToken s) = .ok as) :
    tokens.filterMap (fun token => (Assignment.ofToken s token).toOption.bind Assignment.ending?) =
      as.filterMap Assignment.ending? := by
  replace read := Results.mapM_eq_ok_iff.mp read
  induction read with
  | nil => rfl
  | cons first _ ih =>
    rw [List.filterMap_cons, List.filterMap_cons, ih, first]
    rfl

theorem writtenEnding_eq {s : Settings} {v : String} {as : List Assignment}
    (tokens : (Text.items ';' (body v)).mapM (Assignment.ofToken s) = .ok as) :
    writtenEnding s v = lastEnding none (as.map .assign) := by
  unfold writtenEnding lastEnding
  rw [filterMap_ending?_of_tokens tokens, List.filterMap_map, Option.or_none]
  rfl

/-- **Every rule that exists is well formed.** Whatever calls are made on a draft, the draft builds a
    rule just when a frequency was set and every value is in its range, with a scale for a skip policy;
    and the rule has the end that was set last, in no zone, and is built by the draft it opens as. A text
    that is read makes such a rule, with the last end that it writes; and as any built rule, it may be
    opened again for more calls. -/
theorem wellFormed_of_made :
    (∀ (d : Draft), d.Made → ∀ steps : List Step,
      ((∃ r, (d.stepAll steps).build = .ok r) ↔
        (d.HasFrequency ∨ ∃ f, .assign (.frequency f) ∈ steps) ∧
          (d.stepAll steps).parts.WellFormed) ∧
      ∀ r, (d.stepAll steps).build = .ok r →
        r.IsWellFormed (lastEnding d.parts.ending steps)) ∧
    ∀ (s : Settings) (v : String) (r : Rule), parseWith s v = .ok r →
      r.IsWellFormed (writtenEnding s v) ∧ (Draft.ofRule r).Made := by
  refine ⟨fun d made steps => ⟨?_, fun r built => isWellFormed_of_build made steps built⟩, ?_⟩
  · rw [build_isOk_iff, frequency_stepAll]
  · intro s v r read
    obtain ⟨as, tokens, built⟩ := build_of_parseWith read
    have wellFormed := isWellFormed_of_build (.blank s) _ built
    rw [writtenEnding_eq tokens]
    exact ⟨wellFormed, made_of_parseWith read⟩

/-- Two ends in one text, the later of which counts, and two more on the rule that it writes. -/
theorem wellFormed_of_reopened :
    let noon : Civil := ⟨63871934400, false, by decide, by decide⟩
    let steps : List Step :=
      [.assign (.count 3), .configure .standard, .assign (.last (.zoned ⟨noon, Zone.utc⟩)),
        .assign (.interval 2)]
    ∃ r, parseWith .standard "COUNT=5;FREQ=DAILY;UNTIL=20240131" = .ok r ∧
      r.IsWellFormed (some (.last (.date ⟨739281, by decide, by decide⟩))) ∧
      ∃ r', ((Draft.ofRule r).stepAll steps).build = .ok r' ∧
        r'.IsWellFormed (some (.last (.utc noon))) := by
  intro noon steps
  have row : Text.items ';' (body "COUNT=5;FREQ=DAILY;UNTIL=20240131") =
      ["COUNT=5".toList, "FREQ=DAILY".toList, "UNTIL=20240131".toList] := by decide
  let r : Rule := ⟨.daily, { RuleParts.none with
    ending := some (.last (.date ⟨739281, by decide, by decide⟩)) }, .standard, by decide⟩
  have read : parseWith .standard "COUNT=5;FREQ=DAILY;UNTIL=20240131" = .ok r := by
    unfold parseWith
    rw [row]
    rfl
  obtain ⟨calls, texts⟩ := wellFormed_of_made
  obtain ⟨wellFormed, made⟩ := texts _ _ r read
  have written : writtenEnding .standard "COUNT=5;FREQ=DAILY;UNTIL=20240131" =
      some (.last (.date ⟨739281, by decide, by decide⟩)) := by
    unfold writtenEnding
    rw [row]
    rfl
  refine ⟨r, read, written ▸ wellFormed, ?_⟩
  obtain ⟨r', built⟩ := (calls _ made steps).1.mpr
    ⟨.inl ⟨.daily, rfl⟩, RuleParts.fault?_eq_none_iff.mp (by decide)⟩
  exact ⟨r', built, (calls _ made steps).2 r' built⟩

end Rule

end Almanac
