import Almanac.Proofs.Rule.Lists
import Almanac.Proofs.Series.Visits

/-!
# Rules that expand alike

What a walk reads of a rule are its frequency, interval, ending and settings, and the civil times of an
increment. Two rules that have these in common are alike (`Rule.Alike`), however their parts are
written. This file fixes

* **rules that are alike find the same** in every series, step by step and so to the end
  (`Series.step_withRule`, `Series.toList_withRule`);
* **the lists of a rule are sets** (`Rule.expansion_of_sameSets`): neither the order of their values nor
  how often each is written shows in what the rule finds.
-/

namespace Almanac

namespace Rule

/-- Rules that have in common what a walk reads of them. -/
structure Alike (r r' : Rule) : Prop where
  frequency : r'.frequency = r.frequency
  interval : r'.interval = r.interval
  ending : r'.parts.ending = r.parts.ending
  settings : r'.settings = r.settings
  civilCandidates : ∀ root period dateOnly,
    r'.civilCandidates root period dateOnly = r.civilCandidates root period dateOnly

namespace Alike

variable {r r' : Rule} (h : r.Alike r')

include h

/-! ## 1. Increments -/

theorem candidatesAt_eq (root : Temporal) (offset : Option Int) (period : Civil) :
    r'.candidatesAt root offset period = r.candidatesAt root offset period := by
  unfold candidatesAt valueAt?
  rw [h.civilCandidates, h.settings]

/-- An increment has the same candidates. -/
theorem candidates_eq (root period : Temporal) :
    r'.candidates root period = r.candidates root period := by
  unfold candidates
  rw [h.frequency]
  exact h.candidatesAt_eq _ _ _

theorem incrementStart?_eq (origin : Civil) (k : Nat) :
    r'.incrementStart? origin k = r.incrementStart? origin k := by
  unfold incrementStart?
  rw [h.frequency, h.interval]

theorem lastBefore_eq (origin target : Civil) (k : Nat) :
    r'.lastBefore origin target k = r.lastBefore origin target k := by
  have starts := h.incrementStart?_eq origin
  fun_induction r.lastBefore origin target k with
  | case1 k none => rw [lastBefore_of_none ((starts _).trans none)]
  | case2 k next some' before ih => rw [lastBefore_of_some ((starts _).trans some'), if_pos before, ih]
  | case3 k next some' after => rw [lastBefore_of_some ((starts _).trans some'), if_neg after]

theorem incrementsBefore_eq (origin target : Civil) :
    r'.incrementsBefore origin target = r.incrementsBefore origin target := by
  unfold incrementsBefore
  rw [h.frequency, h.interval]
  simp only [h.lastBefore_eq]

end Alike

end Rule

namespace Series

/-! ## 2. Walks -/

/-- The series with another rule. -/
def withRule (s : Series) (r : Rule) : Series := { s with rule := r }

variable {s : Series} {r : Rule} (h : s.rule.Alike r)

include h

theorem stepZone?_withRule : (s.withRule r).stepZone? = s.stepZone? := by
  unfold stepZone? withRule
  rw [h.frequency]

theorem frame_withRule (t : Temporal) : (s.withRule r).frame t = s.frame t := by
  unfold frame
  rw [stepZone?_withRule h]
  rfl

theorem origin_withRule : (s.withRule r).origin = s.origin := frame_withRule h s.seed

theorem reading?_withRule (period : Civil) :
    (s.withRule r).reading? period = s.reading? period := by
  unfold reading?
  rw [stepZone?_withRule h]

theorem candidates_withRule (period : Civil) :
    (s.withRule r).candidates period = s.candidates period := by
  unfold candidates
  rw [reading?_withRule h, stepZone?_withRule h]
  cases s.reading? period with
  | none => rfl
  | some civil => exact h.candidatesAt_eq _ _ _

theorem emptiesAfter_withRule (empties : Nat) (period : Civil) :
    (s.withRule r).emptiesAfter empties period = s.emptiesAfter empties period := by
  unfold emptiesAfter
  rw [candidates_withRule h, reading?_withRule h]

theorem exceedsLast_withRule : (s.withRule r).exceedsLast = s.exceedsLast := by
  funext t
  unfold exceedsLast RuleParts.last? withRule
  rw [h.ending]
  rfl

theorem countReached_withRule : (s.withRule r).countReached = s.countReached := by
  funext t
  unfold countReached RuleParts.count? withRule
  rw [h.ending]

theorem sift_withRule : (s.withRule r).sift = s.sift := by
  funext state candidate
  unfold sift
  rw [countReached_withRule h, exceedsLast_withRule h]
  rfl

/-- **A step finds the same.** -/
theorem step_withRule (w : Walk) : (s.withRule r).step w = s.step w := by
  have finished : (s.withRule r).finished w = s.finished w := by
    unfold finished
    rw [countReached_withRule h, exceedsLast_withRule h]
    show (_ || r.settings.guard?.any _) = _
    rw [h.settings]
    rfl
  have starts : (s.withRule r).rule.incrementStart? = s.rule.incrementStart? := by
    funext origin k
    exact h.incrementStart?_eq origin k
  unfold step
  rw [finished, origin_withRule h, starts, sift_withRule h]
  simp only [candidates_withRule h, emptiesAfter_withRule h]

theorem setOut_withRule : (s.withRule r).setOut = s.setOut := by
  have count : (s.withRule r).rule.parts.count? = s.rule.parts.count? := by
    unfold RuleParts.count? withRule
    rw [h.ending]
  have before : (s.withRule r).rule.incrementsBefore = s.rule.incrementsBefore := by
    funext origin target
    exact h.incrementsBefore_eq origin target
  have frames : (s.withRule r).frame = s.frame := by
    funext t
    exact frame_withRule h t
  unfold setOut
  rw [count, before, origin_withRule h, frames]
  rfl

/-- So does a walk. -/
theorem valuesFrom_withRule (w : Walk) : (s.withRule r).valuesFrom w = s.valuesFrom w := by
  have all : ∀ found, (s.withRule r).unroll found w = s.unroll found w := by
    intro found
    fun_induction s.unroll found w with
    | case1 found w none => rw [unroll_of_none ((step_withRule h w).trans none)]
    | case2 found w more next some' ih => rw [unroll_of_some ((step_withRule h w).trans some'), ih]
  exact all []

/-- **A series has the same values.** -/
theorem toList_withRule : (s.withRule r).toList = s.toList := by
  unfold toList
  rw [setOut_withRule h]
  exact valuesFrom_withRule h s.setOut

end Series

namespace Rule

namespace Alike

variable {r r' : Rule} (h : r.Alike r')

include h

theorem occurrences_eq (seed : Temporal) : (r'.occurrences seed).toList = (r.occurrences seed).toList :=
  Series.toList_withRule (s := r.occurrences seed) h

theorem dates_eq (seed start stop : Temporal) (most : Option Nat) :
    r'.dates seed start stop most = r.dates seed start stop most := by
  have all : (r'.within seed start stop).toList = (r.within seed start stop).toList :=
    Series.toList_withRule (s := r.within seed start stop) h
  unfold dates
  cases most with
  | none => exact all
  | some n => simp only [Series.take_eq, all]

theorem next?_eq (seed value : Temporal) : r'.next? seed value = r.next? seed value := by
  have all := Series.toList_withRule (s := ⟨r, seed, some value, none⟩) h
  unfold next?
  simp only [Series.find?_eq]
  exact congrArg _ all

end Alike

/-! ## 3. Sets -/

/-- The same sets make rules that are alike. -/
theorem alike_of_sameSets {r r' : Rule} (hf : r'.frequency = r.frequency)
    (hsettings : r'.settings = r.settings) (h : r'.parts.SameSets r.parts) : r.Alike r' where
  frequency := hf
  interval := by
    unfold interval
    rw [h.interval]
  ending := h.ending
  settings := hsettings
  civilCandidates := civilCandidates_eq_of_sameSets hf h

/-- **The lists of a rule are sets.** Two rules of one frequency and with the same settings, whose parts
    say the same when each list is taken for a set, have the same candidates in every increment, the
    same values in every window, and the same value after any other. -/
theorem expansion_of_sameSets {r r' : Rule} (hf : r'.frequency = r.frequency)
    (hsettings : r'.settings = r.settings) (h : r'.parts.SameSets r.parts) :
    (∀ root period, r'.candidates root period = r.candidates root period) ∧
      (∀ seed, (r'.occurrences seed).toList = (r.occurrences seed).toList) ∧
      (∀ seed start stop most, r'.dates seed start stop most = r.dates seed start stop most) ∧
      ∀ seed value, r'.next? seed value = r.next? seed value :=
  have alike := alike_of_sameSets hf hsettings h
  ⟨alike.candidates_eq, alike.occurrences_eq, alike.dates_eq, alike.next?_eq⟩

/-- The first and the last Monday or Wednesday of a month. -/
def firstAndLast : Rule where
  frequency := .monthly
  parts := { RuleParts.none with days := [.every .monday, .every .wednesday], positions := [1, -1] }
  settings := .standard
  valid := by decide

/-- The same, with other words. -/
def lastAndFirst : Rule where
  frequency := .monthly
  parts := { RuleParts.none with
    days := [.every .wednesday, .every .monday, .every .wednesday], positions := [-1, 1, -1] }
  settings := .standard
  valid := by decide

theorem expansion_of_lastAndFirst :
    (lastAndFirst.frequency = firstAndLast.frequency ∧
        lastAndFirst.settings = firstAndLast.settings ∧
        lastAndFirst.parts.SameSets firstAndLast.parts) ∧
      (∀ root period, lastAndFirst.candidates root period = firstAndLast.candidates root period) ∧
      (∀ seed, (lastAndFirst.occurrences seed).toList = (firstAndLast.occurrences seed).toList) ∧
      (∀ seed start stop most,
        lastAndFirst.dates seed start stop most = firstAndLast.dates seed start stop most) ∧
      ∀ seed value, lastAndFirst.next? seed value = firstAndLast.next? seed value :=
  have same : lastAndFirst.parts.SameSets firstAndLast.parts :=
    ⟨rfl, rfl, rfl, rfl, by decide, by decide, by decide, by decide, by decide, by decide, by decide,
      by decide, by decide⟩
  ⟨⟨rfl, rfl, same⟩, expansion_of_sameSets rfl rfl same⟩

end Rule

end Almanac
