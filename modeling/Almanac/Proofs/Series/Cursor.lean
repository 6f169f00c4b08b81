import Almanac.Proofs.Rule.Checked
import Almanac.Proofs.Rule.Units
import Almanac.Rule.Series

/-!
# Values one at a time

A series may be read value by value, by whoever does not know beforehand how many are wanted. A
cursor holds the walk, and what the walk has found and nobody has asked for yet. This file fixes

* a call that asks a cursor for a value (`Series.Call`), with the number of increments that it visits
  on the way. **Every call has an answer, and one only** (`Series.exists_call`, `Series.Call.unique`);
* **calls one after the other answer with the values of the series in order**, and then with none
  (`Series.drains_toList`). What carries the proof is that a call takes the first of the values that
  are left, and leaves the others (`Series.Call.spec`);
* so every walk ends (`Rule.every_walk_ends`), even that of a rule without candidates, without an end
  and without a guard: increments ascend, none follows one that the calendar has no room for, and the
  calendar has an end.
-/

namespace Almanac

/-- A series that is being read. -/
structure Cursor where
  walk : Walk
  /-- What the walk has found and nobody has asked for yet. -/
  waiting : List Temporal
  /-- Whether the walk has come to its end. -/
  done : Bool

namespace Series

variable {s : Series} {c after : Cursor} {n : Nat} {answer : Option Temporal}

/-! ## 1. Calls -/

/-- The cursor of a series of which nobody has asked for a value yet. -/
def cursor (s : Series) : Cursor := ⟨s.setOut, [], false⟩

/-- **A call for a value**: how many increments it visits, what it answers, and the cursor that it
    leaves. A walk goes on only while nothing waits. -/
inductive Call (s : Series) : Cursor → Nat → Option Temporal → Cursor → Prop where
  /-- What waits is handed out. -/
  | hand (w : Walk) (t : Temporal) (rest : List Temporal) (done : Bool) :
      s.Call ⟨w, t :: rest, done⟩ 0 (some t) ⟨w, rest, done⟩
  /-- Nothing waits, and the walk has ended before. -/
  | ended (w : Walk) : s.Call ⟨w, [], true⟩ 0 none ⟨w, [], true⟩
  /-- Nothing waits, and the walk ends here. -/
  | halt {w : Walk} (h : s.step w = none) : s.Call ⟨w, [], false⟩ 0 none ⟨w, [], true⟩
  /-- Nothing waits, and the walk visits an increment. -/
  | visit {w next : Walk} {found : List Temporal} {n : Nat} {answer : Option Temporal}
      {after : Cursor} (h : s.step w = some (found, next))
      (rest : s.Call ⟨next, found, false⟩ n answer after) :
      s.Call ⟨w, [], false⟩ (n + 1) answer after

/-- A walk has an answer after at most as many increments as the calendar has room for. -/
theorem exists_call_of_walk (s : Series) (w : Walk) :
    ∃ n ≤ horizon - w.increment, ∃ answer after, s.Call ⟨w, [], false⟩ n answer after := by
  cases h : s.step w with
  | none => exact ⟨0, Nat.zero_le _, none, _, .halt h⟩
  | some result =>
    obtain ⟨found, next⟩ := result
    obtain ⟨room, closer⟩ := increment_of_step h
    cases found with
    | nil =>
      obtain ⟨n, few, answer, after, call⟩ := exists_call_of_walk s next
      exact ⟨n + 1, by omega, answer, after, .visit h call⟩
    | cons t rest => exact ⟨1, by omega, some t, _, .visit h (.hand next t rest false)⟩
termination_by horizon - w.increment

/-- **Every call has an answer.** -/
theorem exists_call (s : Series) (c : Cursor) :
    ∃ n ≤ horizon - c.walk.increment, ∃ answer after, s.Call c n answer after := by
  obtain ⟨w, waiting, done⟩ := c
  cases waiting with
  | cons t rest => exact ⟨0, Nat.zero_le _, some t, _, .hand w t rest done⟩
  | nil =>
    cases done with
    | true => exact ⟨0, Nat.zero_le _, none, _, .ended w⟩
    | false => exact s.exists_call_of_walk w

/-- **A call has one outcome only.** -/
theorem Call.unique {n' : Nat} {answer' : Option Temporal} {after' : Cursor}
    (h : s.Call c n answer after) (h' : s.Call c n' answer' after') :
    n = n' ∧ answer = answer' ∧ after = after' := by
  induction h generalizing n' with
  | hand w t rest done =>
    cases h'
    exact ⟨rfl, rfl, rfl⟩
  | ended w =>
    cases h'
    exact ⟨rfl, rfl, rfl⟩
  | halt none =>
    cases h' with
    | halt => exact ⟨rfl, rfl, rfl⟩
    | visit stepped => cases none.symm.trans stepped
  | visit stepped _ ih =>
    cases h' with
    | halt none => cases none.symm.trans stepped
    | visit stepped' rest' =>
      cases stepped.symm.trans stepped'
      obtain ⟨same, answers, afters⟩ := ih rest'
      exact ⟨congrArg (· + 1) same, answers, afters⟩

/-! ## 2. Answers -/

/-- The values that are left. -/
def left (s : Series) (c : Cursor) : List Temporal :=
  c.waiting ++ if c.done then [] else s.valuesFrom c.walk

/-- **A call answers with the first of the values that are left, and leaves the others.** -/
theorem Call.spec (h : s.Call c n answer after) :
    answer = (s.left c).head? ∧ s.left after = (s.left c).tail := by
  induction h with
  | hand w t rest done => exact ⟨rfl, rfl⟩
  | ended w => exact ⟨rfl, rfl⟩
  | @halt w none =>
    have nothing : s.left ⟨w, [], false⟩ = [] := valuesFrom_of_none none
    rw [nothing]
    exact ⟨rfl, rfl⟩
  | @visit w next found n answer after stepped _ ih =>
    have same : s.left ⟨w, [], false⟩ = s.left ⟨next, found, false⟩ := valuesFrom_of_some stepped
    rw [same]
    exact ih

/-- Calls one after the other until one has no value to answer with: their answers. -/
inductive Drains (s : Series) : Cursor → List Temporal → Prop where
  | last {c after : Cursor} {n : Nat} (h : s.Call c n none after) : s.Drains c []
  | more {c after : Cursor} {n : Nat} {t : Temporal} {later : List Temporal}
      (h : s.Call c n (some t) after) (rest : s.Drains after later) : s.Drains c (t :: later)

/-- **Calls one after the other answer with the values that are left, in order.** -/
theorem drains_left (s : Series) (c : Cursor) : s.Drains c (s.left c) := by
  generalize h : s.left c = values
  induction values generalizing c with
  | nil =>
    obtain ⟨n, -, answer, after, call⟩ := s.exists_call c
    obtain ⟨rfl, -⟩ := call.spec
    rw [h] at call
    exact .last call
  | cons t later ih =>
    obtain ⟨n, -, answer, after, call⟩ := s.exists_call c
    obtain ⟨rfl, others⟩ := call.spec
    rw [h] at call others
    exact .more call (ih after others)

/-- **Read value by value, a series has the values of its list.** -/
theorem drains_toList (s : Series) : s.Drains s.cursor s.toList :=
  s.drains_left s.cursor

end Series

/-! ## 3. The end of every walk -/

/-- **Every walk ends.** The increments of a rule start in ascending order; behind one without a start
    all are without, and from some number on they are; the limits of the numbers on the way change
    nothing about it. So a call for a value visits finitely many increments and has one outcome,
    whatever the rule, the seed and the window, and wherever the cursor stands; and calls one after the
    other answer with the values of the series, and then with none. -/
theorem Rule.every_walk_ends (r : Rule) :
    (∀ origin : Civil, r.checkedStart? origin = r.incrementStart? origin ∧
      (∀ i j c d, i < j → r.incrementStart? origin i = some c →
        r.incrementStart? origin j = some d → c < d) ∧
      (∀ i j, i ≤ j → r.incrementStart? origin i = none → r.incrementStart? origin j = none) ∧
      ∃ k, ∀ j, k ≤ j → r.incrementStart? origin j = none) ∧
    ∀ (seed : Temporal) (start stop : Option Temporal),
      (∀ c : Cursor, ∃ n ≤ horizon - c.walk.increment, ∃ answer after, ∀ n' answer' after',
        (Series.mk r seed start stop).Call c n' answer' after' ↔
          n' = n ∧ answer' = answer ∧ after' = after) ∧
      (Series.mk r seed start stop).Drains (Series.mk r seed start stop).cursor
        (Series.mk r seed start stop).toList := by
  refine ⟨fun origin => ⟨r.checkedStart?_eq origin, fun i j c d less hc hd => ?_,
    fun i j le none => incrementStart?_eq_none_of_le le none, horizon, fun j far => ?_⟩,
    fun seed start stop => ⟨fun c => ?_, (Series.mk r seed start stop).drains_toList⟩⟩
  · exact Civil.lt_of_stamp_lt (stamp_lt_of_lt less hc hd)
  · refine Option.eq_none_iff_forall_ne_some.mpr fun c hc => ?_
    exact Nat.not_lt.mpr far (incrementStart?_lt_horizon hc)
  · obtain ⟨n, few, answer, after, call⟩ := (Series.mk r seed start stop).exists_call c
    refine ⟨n, few, answer, after, fun n' answer' after' => ⟨fun other => other.unique call, ?_⟩⟩
    rintro ⟨rfl, rfl, rfl⟩
    exact call

/-- The thirtieth of February, and no guard. -/
def thirtiethOfFebruary : Rule where
  frequency := .yearly
  parts := { RuleParts.none with months := [2], monthDays := [30] }
  settings := { Settings.standard with emptyLimit := 0 }
  valid := by decide

/-- From the year 262140 on there are three increments, and the search for a value ends behind
    them. -/
example :
    let seed : Temporal := .floating ⟨8272339401600, false, by decide, by decide⟩
    (thirtiethOfFebruary.occurrences seed).find? (fun _ => true) = none ∧
      ((thirtiethOfFebruary.incrementStart? seed.localTime 2).isSome,
        (thirtiethOfFebruary.incrementStart? seed.localTime 3).isSome) = (true, false) := by
  decide +kernel

end Almanac
