import Almanac.Proofs.Series.Sift
import Mathlib.Data.List.Infix

/-!
# What a walk visits

A walk goes from increment to increment, and a guard ends it after too many in a row without a
candidate. This file fixes

* **the increments that a walk visits** to find so many values, or all of them (`Series.visits`): a
  walk is lazy, and makes no step for a value that nobody asks for;
* **a limit to empty increments has no say about anything but where a walk stops**
  (`Series.step_withLimit`): up to there all limits make the same steps;
* so **the guard only cuts off, and only after a full run of empty increments**
  (`Series.guard_cuts_after_empty_run`). What carries the proof is that the count of empty
  increments is the length of the run that the walk has just come through (`Series.IdleRun`).
-/

namespace Almanac

/-- The rule with another limit to empty increments. -/
def Rule.withLimit (r : Rule) (limit : Int) : Rule :=
  { r with settings := { r.settings with emptyLimit := limit } }

namespace Rule

variable {r : Rule} {origin target : Civil} {k : Nat}

theorem lastBefore_of_none (h : r.incrementStart? origin (k + 1) = none) :
    r.lastBefore origin target k = k := by
  rw [lastBefore]
  split <;> simp_all

theorem lastBefore_of_some {next : Civil} (h : r.incrementStart? origin (k + 1) = some next) :
    r.lastBefore origin target k =
      if next < target then r.lastBefore origin target (k + 1) else k := by
  rw [lastBefore]
  split <;> simp_all

/-- A limit has no say about how far a walk may skip ahead. -/
theorem lastBefore_withLimit (r : Rule) (limit : Int) (origin target : Civil) (k : Nat) :
    (r.withLimit limit).lastBefore origin target k = r.lastBefore origin target k := by
  have same : (r.withLimit limit).incrementStart? origin = r.incrementStart? origin := rfl
  fun_induction r.lastBefore origin target k with
  | case1 k none => rw [lastBefore_of_none (same ▸ none)]
  | case2 k next some' before ih => rw [lastBefore_of_some (same ▸ some'), if_pos before, ih]
  | case3 k next some' after => rw [lastBefore_of_some (same ▸ some'), if_neg after]

end Rule

namespace Series

variable {s : Series}

/-! ## 1. Visits -/

/-- The start of an increment, if it is read as a civil time. -/
def readable (s : Series) (period : Civil) : List Civil :=
  if (s.reading? period).isSome then [period] else []

/-- The starts of the increments that a walk visits to find `most` more values, or all that it still
    finds. -/
def visitsFrom (s : Series) (most : Option Nat) (w : Walk) : List Civil :=
  if most = some 0 then []
  else
    match _h : s.step w with
    | none => []
    | some (more, next) =>
      (s.rule.incrementStart? s.origin w.increment).elim [] s.readable ++
        s.visitsFrom (most.map (· - more.length)) next
termination_by horizon - w.increment
decreasing_by have := increment_of_step _h; omega

/-- **The starts of the increments that a series visits** for its first `most` values, or for all of
    them. -/
def visits (s : Series) (most : Option Nat) : List Civil := s.visitsFrom most s.setOut

/-- Each step visits one increment, or one that is not read. -/
theorem visitsFrom_of_some {most : Option Nat} {w next : Walk} {more : List Temporal}
    {period : Civil} (asked : most ≠ some 0) (h : s.step w = some (more, next))
    (hp : s.rule.incrementStart? s.origin w.increment = some period) :
    s.visitsFrom most w = s.readable period ++ s.visitsFrom (most.map (· - more.length)) next := by
  rw [visitsFrom, if_neg asked]
  split
  · rename_i none
    rw [h] at none
    cases none
  · rename_i more' next' same
    cases h.symm.trans same
    rw [hp]
    rfl

/-! ## 2. Limits -/

/-- The series with another limit to empty increments. -/
def withLimit (s : Series) (limit : Int) : Series := { s with rule := s.rule.withLimit limit }

theorem setOut_withLimit (s : Series) (limit : Int) : (s.withLimit limit).setOut = s.setOut := by
  unfold setOut Rule.incrementsBefore
  simp only [show ∀ origin target k, (s.withLimit limit).rule.lastBefore origin target k =
    s.rule.lastBefore origin target k from s.rule.lastBefore_withLimit limit]
  rfl

/-- Whether a limit ends a walk after so many empty increments in a row; zero or less never does. -/
def Reached (limit : Int) (empties : Nat) : Prop := 0 < limit ∧ limit ≤ empties

instance (limit : Int) (empties : Nat) : Decidable (Reached limit empties) :=
  inferInstanceAs (Decidable (_ ∧ _))

theorem guard?_any (settings : Settings) (empties : Nat) :
    settings.guard?.any (fun limit => limit ≤ empties) =
      decide (Reached settings.emptyLimit empties) := by
  unfold Settings.guard? Reached
  split
  · rename_i positive
    exact decide_eq_decide.mpr (by omega)
  · rename_i disabled
    exact (decide_eq_false fun h => disabled h.1).symm

/-- **A limit stops a walk that has reached it, and changes nothing else.** -/
theorem step_withLimit (s : Series) (limit : Int) (w : Walk) :
    (s.withLimit limit).step w =
      if Reached limit w.empties then none else (s.withLimit 0).step w := by
  have guard : (s.withLimit limit).rule.settings.guard?.any (fun n => n ≤ w.empties) =
      decide (Reached limit w.empties) := guard?_any _ _
  have none' : (s.withLimit 0).rule.settings.guard?.any (fun n => n ≤ w.empties) = false := rfl
  by_cases reached : Reached limit w.empties
  · rw [if_pos reached]
    refine step_eq_none_of_finished ?_
    unfold finished
    rw [guard, decide_eq_true reached, Bool.or_true]
  · rw [if_neg reached]
    have same : (s.withLimit limit).finished w = (s.withLimit 0).finished w := by
      unfold finished
      rw [guard, none', decide_eq_false reached]
      rfl
    unfold step
    rw [same]
    rfl

/-- One limit is no stricter than another: it is disabled, or not less. -/
theorem not_reached_of_le {g : Nat} {limit : Int} (h : limit ≤ 0 ∨ g ≤ limit) {empties : Nat}
    (below : empties < g) : ¬ Reached limit empties := by
  rintro ⟨positive, reached⟩
  omega

/-- **A stricter limit finds a prefix.** -/
theorem valuesFrom_withLimit_isPrefix {g : Nat} (positive : 1 ≤ g) {limit : Int}
    (h : limit ≤ 0 ∨ g ≤ limit) (w : Walk) :
    (s.withLimit g).valuesFrom w <+: (s.withLimit limit).valuesFrom w := by
  cases stepped : (s.withLimit g).step w with
  | none =>
    rw [valuesFrom_of_none stepped]
    exact List.nil_prefix
  | some result =>
    obtain ⟨more, next⟩ := result
    have closer := increment_of_step stepped
    have same : (s.withLimit limit).step w = some (more, next) := by
      rw [step_withLimit] at stepped ⊢
      split at stepped
      · cases stepped
      · rename_i open'
        have below : w.empties < g := by
          refine Nat.not_le.mp fun reached => open' ⟨?_, ?_⟩ <;> omega
        rw [if_neg (not_reached_of_le h below)]
        exact stepped
    rw [valuesFrom_of_some stepped, valuesFrom_of_some same]
    exact (List.prefix_append_right_inj more).mpr (valuesFrom_withLimit_isPrefix positive h next)
termination_by horizon - w.increment
decreasing_by omega

/-! ## 3. Runs of empty increments -/

/-- Of every `n` increments in a row, one has a candidate. -/
def NeverIdle (s : Series) (n : Nat) (periods : List Civil) : Prop :=
  ∀ block, block <:+: periods → block.length = n → ∃ period ∈ block, s.candidates period ≠ []

theorem neverIdle_iff {n : Nat} {periods : List Civil} :
    s.NeverIdle n periods ↔ ∀ rest ∈ periods.tails, (rest.take n).length = n →
      ∃ period ∈ rest.take n, s.candidates period ≠ [] := by
  constructor
  · intro h rest mem long
    have suffix := (List.mem_tails _ _).mp mem
    exact h (rest.take n) ((List.take_prefix n rest).isInfix.trans suffix.isInfix) long
  · intro h block infix' long
    obtain ⟨rest, front, suffix⟩ := List.infix_iff_prefix_suffix.mp infix'
    have cut : block = rest.take n := by
      rw [← long]
      exact List.prefix_iff_eq_take.mp front
    rw [cut] at long ⊢
    exact h rest ((List.mem_tails _ _).mpr suffix) long

instance (s : Series) (n : Nat) (periods : List Civil) : Decidable (s.NeverIdle n periods) :=
  decidable_of_iff _ neverIdle_iff.symm

theorem NeverIdle.of_isInfix {n : Nat} {part periods : List Civil} (h : s.NeverIdle n periods)
    (infix' : part <:+: periods) : s.NeverIdle n part :=
  fun block hb long => h block (hb.trans infix') long

/-- The increments that a walk has visited since it last met a candidate. -/
structure IdleRun (s : Series) (w : Walk) (run : List Civil) : Prop where
  length_eq : run.length = w.empties
  empty : ∀ period ∈ run, s.candidates period = []

namespace IdleRun

variable {w : Walk} {run : List Civil}

/-- Before a run is full, its length is below the limit. -/
theorem empties_lt {g : Nat} {ahead : List Civil} (h : s.IdleRun w run)
    (never : s.NeverIdle g (run ++ ahead)) : w.empties < g := by
  refine Nat.not_le.mp fun full => ?_
  have long : (run.take g).length = g := by
    rw [List.length_take, h.length_eq, Nat.min_eq_left full]
  have part : run.take g <:+: run ++ ahead :=
    ((List.take_prefix g run).trans (List.prefix_append run ahead)).isInfix
  obtain ⟨period, mem, some'⟩ := never _ part long
  exact some' (h.empty period (List.mem_of_mem_take mem))

/-- **A step lengthens the run, leaves it or ends it.** -/
theorem step {next : Walk} {more : List Temporal} {period : Civil} (h : s.IdleRun w run)
    (stepped : s.step w = some (more, next))
    (hp : s.rule.incrementStart? s.origin w.increment = some period) :
    ∃ run', s.IdleRun next run' ∧ run' <:+ run ++ s.readable period := by
  obtain ⟨-, period', hp', -, rfl⟩ := step_cases stepped
  cases hp.symm.trans hp'
  cases found : s.candidates period with
  | nil =>
    unfold readable emptiesAfter
    rw [found]
    cases read : (s.reading? period).isSome with
    | true =>
      refine ⟨run ++ [period], ⟨?_, fun p hp => ?_⟩, List.suffix_rfl⟩
      · simp [h.length_eq]
      · rcases List.mem_append.mp hp with before | last
        · exact h.empty p before
        · rw [List.mem_singleton.mp last]
          exact found
    | false =>
      refine ⟨run, ⟨h.length_eq, h.empty⟩, ?_⟩
      simp
  | cons c rest =>
    refine ⟨[], ⟨?_, fun p hp => absurd hp List.not_mem_nil⟩, List.nil_suffix⟩
    simp [emptiesAfter, found]

end IdleRun

/-- **Where no run is full, no limit stops a walk.** -/
theorem valuesFrom_withLimit_eq {g : Nat} {limit : Int} (h : limit ≤ 0 ∨ g ≤ limit) {w : Walk}
    {run : List Civil} (idle : (s.withLimit limit).IdleRun w run)
    (never : (s.withLimit limit).NeverIdle g (run ++ (s.withLimit limit).visitsFrom none w)) :
    (s.withLimit g).valuesFrom w = (s.withLimit limit).valuesFrom w := by
  have below := idle.empties_lt never
  have same : (s.withLimit g).step w = (s.withLimit limit).step w := by
    rw [step_withLimit s g, step_withLimit s limit, if_neg (not_reached_of_le h below),
      if_neg (not_reached_of_le (.inr (Int.le_refl _)) below)]
  cases stepped : (s.withLimit limit).step w with
  | none => rw [valuesFrom_of_none stepped, valuesFrom_of_none (same.trans stepped)]
  | some result =>
    obtain ⟨more, next⟩ := result
    have closer := increment_of_step stepped
    obtain ⟨-, period, hp, -, -⟩ := step_cases stepped
    obtain ⟨run', idle', dropped, cut⟩ := idle.step stepped hp
    have visited : (s.withLimit limit).visitsFrom none w = (s.withLimit limit).readable period ++
        (s.withLimit limit).visitsFrom none next := visitsFrom_of_some nofun stepped hp
    have rest : run' ++ (s.withLimit limit).visitsFrom none next <:+:
        run ++ (s.withLimit limit).visitsFrom none w := by
      refine ⟨dropped, [], ?_⟩
      rw [visited, List.append_nil, ← List.append_assoc, cut, List.append_assoc]
    rw [valuesFrom_of_some stepped, valuesFrom_of_some (same.trans stepped)]
    exact congrArg (more ++ ·) (valuesFrom_withLimit_eq h idle' (never.of_isInfix rest))
termination_by horizon - w.increment
decreasing_by omega

/-! ## 4. The guard -/

/-- **The guard only cuts off, and only after a full run of empty increments.** Under a limit `g` a
    series has the first of the values that it has without a limit, or with a larger one. It has
    them all when that series never visits `g` increments in a row without a candidate. -/
theorem guard_cuts_after_empty_run (s : Series) {g : Nat} (positive : 1 ≤ g) {limit : Int}
    (h : limit ≤ 0 ∨ g ≤ limit) :
    (s.withLimit g).toList <+: (s.withLimit limit).toList ∧
      (s.NeverIdle g ((s.withLimit limit).visits none) →
        (s.withLimit g).toList = (s.withLimit limit).toList) := by
  unfold toList visits
  rw [setOut_withLimit, setOut_withLimit]
  refine ⟨valuesFrom_withLimit_isPrefix positive h s.setOut, fun never => ?_⟩
  have fresh : (s.withLimit limit).IdleRun s.setOut [] :=
    ⟨rfl, fun _ hp => absurd hp List.not_mem_nil⟩
  exact valuesFrom_withLimit_eq h fresh never

/-- The 31sts of 2024, at nine in the morning. -/
def thirtyFirsts : Series where
  rule :=
    { frequency := .monthly
      parts := { RuleParts.none with monthDays := [31] }
      settings := .standard
      valid := by decide }
  seed := .floating ⟨63873910800, false, by decide, by decide⟩
  start := none
  stop := some (.date ⟨739617, by decide, by decide⟩)

/-- Two months without a 31st never follow each other, so two is limit enough. -/
theorem guard_of_thirtyFirsts :
    (1 ≤ 2 ∧ ((0 : Int) ≤ 0 ∨ ((2 : Nat) : Int) ≤ 0) ∧
        thirtyFirsts.NeverIdle 2 ((thirtyFirsts.withLimit 0).visits none)) ∧
      (thirtyFirsts.withLimit (2 : Nat)).toList <+: (thirtyFirsts.withLimit 0).toList ∧
      (thirtyFirsts.withLimit (2 : Nat)).toList = (thirtyFirsts.withLimit 0).toList := by
  have never : thirtyFirsts.NeverIdle 2 ((thirtyFirsts.withLimit 0).visits none) := by
    decide +kernel
  obtain ⟨cut, all⟩ := guard_cuts_after_empty_run thirtyFirsts (show 1 ≤ 2 by decide)
    (.inl (Int.le_refl 0))
  exact ⟨⟨by decide, .inl (Int.le_refl 0), never⟩, cut, all never⟩

/-- One is not: February ends the series. -/
example : ((thirtyFirsts.withLimit 1).toList.length, (thirtyFirsts.withLimit 0).toList.length) =
    (1, 7) := by decide +kernel

end Series

end Almanac
