import Almanac.Proofs.Temporal.Comparator
import Almanac.Rule.Series

/-!
# What a series does with a candidate

This file fixes

* **the mark of a tally** (`Series.mark`): the key that a candidate has to exceed to be one more
  occurrence. It takes the two reasons to pass a candidate over, that it lies before the seed and
  that it does not come after the last one counted, as one (`passedOver_iff`);
* the four things that can become of a candidate, each with the tally that it leaves
  (`sift_of_le_mark`, `sift_of_outside`, `sift_of_cutOff`, `sift_of_listed`);
* that a step of a walk is the sifting of the candidates of one increment (`step_cases`);
* that all candidates are of the seed's kind (`sameKind_of_mem_candidates`).
-/

namespace Almanac

theorem Rule.sameKind_of_valueAt? {r : Rule} {root t : Temporal} {offset : Option Int} {c : Civil}
    (h : r.valueAt? root offset c = some t) : t.SameKind root := by
  unfold valueAt? at h
  split at h
  · split at h
    · cases h
      exact ⟨rfl, rfl⟩
    · exact Temporal.sameKind_of_withCivil h
  · exact Temporal.sameKind_of_withCivil h

theorem Rule.sameKind_of_mem_candidatesAt {r : Rule} {root t : Temporal} {offset : Option Int}
    {period : Civil} (h : t ∈ r.candidatesAt root offset period) : t.SameKind root := by
  obtain ⟨_, -, ht⟩ := List.mem_filterMap.mp (mem_of_mem_ascending h)
  exact sameKind_of_valueAt? ht

namespace Series

variable {s : Series} {t : Tally} {found : List Temporal} {c : Temporal}

/-! ## 1. Keys and marks -/

/-- The key of a value under the comparator of the series. -/
def key (s : Series) (c : Temporal) : Int := s.comparator.key c

/-- What the key of a candidate has to exceed for the candidate to be one more occurrence. -/
def mark (s : Series) (t : Tally) : Int :=
  match t.lastCounted with
  | none => s.key s.seed - 1
  | some last => max (s.key s.seed - 1) (s.key last)

/-- Whether a value lies in the window. -/
def inside (s : Series) (c : Temporal) : Bool :=
  !s.beforeStart c && !s.pastStop c

/-- Whether the rule ends the series before a value, when so many occurrences have been counted. -/
def cutOff (s : Series) (counted : Nat) (c : Temporal) : Bool :=
  (s.rule.parts.count?.any fun count => count ≤ counted) || s.exceedsLast c

theorem exceedsLast_eq (s : Series) (c : Temporal) :
    s.exceedsLast c = s.rule.parts.last?.any fun last => s.comparator.beyond last c := by
  unfold exceedsLast
  split
  · rename_i h
    rw [h]
    rfl
  · rename_i d h
    rw [h]
    rfl
  · rename_i last notDate h
    rw [h, Option.any_some]
    cases last with
    | date d => exact absurd rfl (notDate d)
    | floating _ => rfl
    | utc _ => rfl
    | zoned _ => rfl

theorem exceedsLast_eq_false_iff : s.exceedsLast c = false ↔
    ∀ last ∈ s.rule.parts.last?, s.comparator.beyond last c = false := by
  rw [exceedsLast_eq, Option.any_eq_false]
  exact Iff.rfl

theorem inside_iff : s.inside c = true ↔
    (∀ start ∈ s.start, s.comparator.before c start = false) ∧
      ∀ stop ∈ s.stop, s.comparator.after c stop = false := by
  unfold inside beforeStart pastStop
  rw [Bool.and_eq_true, Bool.not_eq_true', Bool.not_eq_true', Option.any_eq_false,
    Option.any_eq_false]
  exact Iff.rfl

/-- **A candidate is passed over exactly when its key does not exceed the mark.** -/
theorem passedOver_iff : (s.comparator.before c s.seed ||
    t.lastCounted.any fun last => !s.comparator.after c last) = true ↔ s.key c ≤ s.mark t := by
  unfold mark key
  cases t.lastCounted with
  | none =>
    simp only [Option.any_none, Bool.or_false, Comparator.before_iff]
    omega
  | some last =>
    simp only [Option.any_some, Bool.or_eq_true, Comparator.before_iff, Bool.not_eq_true',
      Comparator.after_eq_false_iff]
    omega

@[simp] theorem mark_blank (s : Series) : s.mark .blank = s.key s.seed - 1 := rfl

/-- The candidate met last has no say about the mark. -/
@[simp] theorem mark_lastSeen (s : Series) (t : Tally) (seen : Option Temporal) :
    s.mark { t with lastSeen := seen } = s.mark t := rfl

theorem seed_le_mark (s : Series) (t : Tally) : s.key s.seed - 1 ≤ s.mark t := by
  unfold mark
  split <;> omega

/-- An occurrence above the mark is the new mark. -/
theorem mark_count (h : s.mark t < s.key c) (seen : Option Temporal) :
    s.mark (({ t with lastSeen := seen } : Tally).count c) = s.key c := by
  have := s.seed_le_mark t
  show max (s.key s.seed - 1) (s.key c) = s.key c
  omega

theorem outside_iff : (s.beforeStart c || s.pastStop c) = true ↔ s.inside c = false := by
  unfold inside
  cases s.beforeStart c <;> cases s.pastStop c <;> decide

/-! ## 2. What becomes of a candidate -/

/-- One that is not above the mark is passed over. -/
theorem sift_of_le_mark (h : s.key c ≤ s.mark t) :
    s.sift (t, found) c = ({ t with lastSeen := some c }, found) := by
  unfold sift
  dsimp only
  rw [if_pos (passedOver_iff.mpr h)]

/-- One above the mark and outside the window is counted and not listed. -/
theorem sift_of_outside (h : s.mark t < s.key c) (out : s.inside c = false) :
    s.sift (t, found) c = (({ t with lastSeen := some c } : Tally).count c, found) := by
  unfold sift
  dsimp only
  rw [if_neg (fun p => by have := passedOver_iff.mp p; omega), if_pos (outside_iff.mpr out)]

/-- One inside the window at which the rule ends the series is neither counted nor listed. -/
theorem sift_of_cutOff (h : s.mark t < s.key c) (inside : s.inside c = true)
    (cut : s.cutOff t.counted c = true) :
    s.sift (t, found) c = ({ t with lastSeen := some c }, found) := by
  unfold sift
  dsimp only
  rw [if_neg (fun p => by have := passedOver_iff.mp p; omega),
    if_neg (fun o => by rw [outside_iff.mp o] at inside; cases inside)]
  exact if_pos cut

/-- One inside the window at which the rule does not end the series is counted and listed. -/
theorem sift_of_listed (h : s.mark t < s.key c) (inside : s.inside c = true)
    (cut : s.cutOff t.counted c = false) :
    s.sift (t, found) c = (({ t with lastSeen := some c } : Tally).count c, c :: found) := by
  unfold sift
  dsimp only
  rw [if_neg (fun p => by have := passedOver_iff.mp p; omega),
    if_neg (fun o => by rw [outside_iff.mp o] at inside; cases inside)]
  exact if_neg fun reached => Bool.false_ne_true (cut.symm.trans reached)

/-! ## 3. What a step does -/

theorem sameKind_of_mem_candidates {period : Civil} (h : c ∈ s.candidates period) :
    c.SameKind s.seed := by
  unfold candidates at h
  split at h
  · exact Rule.sameKind_of_mem_candidatesAt h
  · cases h

/-- The candidates of an increment ascend strictly. -/
theorem pairwise_candidates (s : Series) (period : Civil) :
    (s.candidates period).Pairwise fun a b => s.key a < s.key b := by
  unfold candidates
  split
  · exact Rule.pairwise_candidatesAt _ _ _ _
  · exact List.Pairwise.nil

/-- The tally and the findings after several candidates. -/
def siftAll (s : Series) (t : Tally) (cs : List Temporal) : Tally × List Temporal :=
  cs.foldl s.sift (t, [])

/-- **A step that is made sifts the candidates of the next increment.** -/
theorem step_eq_of_not_finished {w : Walk} {period : Civil} (go : s.finished w = false)
    (h : s.rule.incrementStart? s.origin w.increment = some period) :
    s.step w = some ((s.siftAll w.tally (s.candidates period)).2.reverse,
      ⟨w.increment + 1, s.emptiesAfter w.empties period,
        (s.siftAll w.tally (s.candidates period)).1⟩) := by
  unfold step
  rw [if_neg (by rw [go]; simp), h]
  rfl

theorem step_eq_none_of_finished {w : Walk} (h : s.finished w = true) : s.step w = none := by
  unfold step
  rw [if_pos h]

theorem step_eq_none_of_incrementStart? {w : Walk}
    (h : s.rule.incrementStart? s.origin w.increment = none) : s.step w = none := by
  unfold step
  rw [h, Option.map_none, ite_self]

/-- A step sifts the candidates of an increment that has a start. -/
theorem step_cases {w next : Walk} {more : List Temporal} (h : s.step w = some (more, next)) :
    s.finished w = false ∧ ∃ period, s.rule.incrementStart? s.origin w.increment = some period ∧
      more = (s.siftAll w.tally (s.candidates period)).2.reverse ∧
      next = ⟨w.increment + 1, s.emptiesAfter w.empties period,
        (s.siftAll w.tally (s.candidates period)).1⟩ := by
  cases go : s.finished w with
  | true =>
    rw [step_eq_none_of_finished go] at h
    cases h
  | false =>
    cases hp : s.rule.incrementStart? s.origin w.increment with
    | none =>
      rw [step_eq_none_of_incrementStart? hp] at h
      cases h
    | some period =>
      rw [step_eq_of_not_finished go hp] at h
      cases h
      exact ⟨rfl, period, rfl, rfl, rfl⟩

end Series

end Almanac
