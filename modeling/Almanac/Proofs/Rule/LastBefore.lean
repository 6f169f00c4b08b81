import Almanac.Proofs.Rule.Checked
import Almanac.Proofs.Rule.Units

/-!
# The last increment before a target

Skipping ahead has two parts: a guess by arithmetic, from the units between the seed and the target,
and single steps from there on. This file fixes

* which increments start before a target (`Rule.StartsBefore`): all of them up to one, and none
  behind it (`Rule.IsLastBefore.startsBefore_iff`), so there is **one last increment only**
  (`Rule.IsLastBefore.unique`);
* **the guess (`Rule.guess`) never goes too far, and falls short by three increments at most**
  (`Rule.guess_lt_target`, `Rule.le_guess_add_three`), wherever months end and leap seconds stand;
* **skipping ahead finds the last increment before the target**, in at most three steps from its
  guess (`Rule.incrementsBefore_isLast`).
-/

namespace Almanac.Rule

variable {r : Rule} {origin target : Civil} {i j k : Nat}

/-! ## 1. Increments before a target -/

/-- An increment has a start, and that lies before the target. -/
def StartsBefore (r : Rule) (origin target : Civil) (k : Nat) : Prop :=
  ∃ c, r.incrementStart? origin k = some c ∧ c < target

/-- **The last increment before a target**: it starts before the target, and the next one has no
    start or does not start before the target. -/
structure IsLastBefore (r : Rule) (origin target : Civil) (k : Nat) : Prop where
  before : r.StartsBefore origin target k
  next : ∀ d, r.incrementStart? origin (k + 1) = some d → target ≤ d

/-- What comes earlier than an increment before the target starts before the target as well. -/
theorem StartsBefore.of_le (hj : r.StartsBefore origin target j) (h : i ≤ j) :
    r.StartsBefore origin target i := by
  obtain ⟨d, hd, lt⟩ := hj
  obtain ⟨c, hc⟩ := Option.isSome_iff_exists.mp (incrementStart?_isSome_of_le h hd)
  rcases Nat.lt_or_eq_of_le h with less | rfl
  · have earlier : c < d := Civil.lt_of_stamp_lt (stamp_lt_of_lt less hc hd)
    exact ⟨c, hc, Int.lt_trans earlier lt⟩
  · exact ⟨d, hd, lt⟩

/-- **The increments before a target are those up to the last one.** -/
theorem IsLastBefore.startsBefore_iff (h : r.IsLastBefore origin target k) :
    r.StartsBefore origin target j ↔ j ≤ k := by
  constructor
  · intro hj
    refine Nat.not_lt.mp fun later => ?_
    obtain ⟨d, hd, lt⟩ := hj.of_le (Nat.succ_le_of_lt later)
    have := h.next d hd
    rw [Civil.lt_iff_rank] at lt
    rw [Civil.le_iff_rank] at this
    omega
  · exact StartsBefore.of_le h.before

/-- There is one last increment before a target only. -/
theorem IsLastBefore.unique (hi : r.IsLastBefore origin target i)
    (hj : r.IsLastBefore origin target j) : i = j :=
  Nat.le_antisymm (hj.startsBefore_iff.mp hi.before) (hi.startsBefore_iff.mp hj.before)

/-! ## 2. The guess -/

/-- The increment from which skipping ahead makes single steps. -/
def guess (r : Rule) (origin target : Civil) : Nat :=
  ((r.frequency.unitsBetween origin target).tdiv r.interval - 2).toNat

/-- Skipping ahead makes single steps from its guess on. -/
theorem incrementsBefore_eq_lastBefore_guess (h : origin < target) :
    r.incrementsBefore origin target = r.lastBefore origin target (r.guess origin target) := by
  refine if_neg fun back => ?_
  rw [Civil.le_iff_rank] at back
  rw [Civil.lt_iff_rank] at h
  omega

/-- **The guess falls short by three increments at most.** -/
theorem le_guess_add_three (h : origin < target) (hk : r.StartsBefore origin target k) :
    k ≤ r.guess origin target + 3 := by
  obtain ⟨c, hc, lt⟩ := hk
  obtain ⟨low, -, high⟩ := r.frequency.unitsBetween_bounds r.weekStart h
  have counted : r.unitIndex target - r.unitIndex origin ≤
      r.frequency.unitsBetween origin target + 1 := high
  have reach : r.unitIndex c ≤ r.unitIndex target := Int.not_lt.mp fun later => by
    have := stamp_lt_of_unitIndex_lt later
    have := Civil.stamp_le_of_lt lt
    omega
  rw [unitIndex_of_incrementStart? hc] at reach
  -- an increment takes whole intervals of units, and one unit more than counted is room for one more
  have positive : (0 : Int) < r.interval := by have := r.one_le_interval; omega
  have whole := Int.lt_ediv_add_one_mul_self (r.frequency.unitsBetween origin target) positive
  have steps : (k : Int) * r.interval ≤
      (r.frequency.unitsBetween origin target / r.interval + 1) * r.interval := by
    rw [Int.natCast_mul] at reach
    omega
  have few := Int.le_of_mul_le_mul_right steps positive
  rw [guess, Int.tdiv_eq_ediv_of_nonneg low]
  omega

/-! ## 3. Skipping ahead -/

/-- **Skipping ahead finds the last increment before the target**, and stays at the seed when the
    target is no later. The guess it makes single steps from starts before the target, and the test
    for one more step, made with all numbers checked, succeeds at most three times and then fails. -/
theorem incrementsBefore_isLast (r : Rule) (origin target : Civil) :
    (target ≤ origin → r.incrementsBefore origin target = 0) ∧
      (origin < target →
        (∀ k, r.incrementsBefore origin target = k ↔ r.IsLastBefore origin target k) ∧
        r.incrementsBefore origin target = r.lastBefore origin target (r.guess origin target) ∧
        r.StartsBefore origin target (r.guess origin target) ∧
        ∃ turns ≤ 3, r.incrementsBefore origin target = r.guess origin target + turns ∧
          ∀ i, i < turns ↔
            ∃ next, r.checkedStart? origin (r.guess origin target + i + 1) = some next ∧
              next < target) := by
  refine ⟨fun h => if_pos h, fun h => ?_⟩
  obtain ⟨before, next⟩ := incrementsBefore_spec (r := r) h
  have last : r.IsLastBefore origin target (r.incrementsBefore origin target) := ⟨before, next⟩
  have start : r.StartsBefore origin target (r.guess origin target) := guess_lt_target h
  have low := last.startsBefore_iff.mp start
  have high := le_guess_add_three h last.before
  refine ⟨fun k => ⟨fun same => same ▸ last, last.unique⟩, incrementsBefore_eq_lastBefore_guess h,
    start, r.incrementsBefore origin target - r.guess origin target, by omega, by omega,
    fun i => ?_⟩
  rw [r.checkedStart?_eq origin]
  refine Iff.trans ?_ last.startsBefore_iff.symm
  omega

/-- One unit of a frequency after the other. -/
def unitAfterUnit (f : Frequency) : Rule where
  frequency := f
  parts := .none
  settings := .standard
  valid := RuleParts.fault?_none

/-- From nine in the morning of 31 January 2024 on, month after month up to the same time of 31 May:
    the guess is the end of March, and the last increment before is that of 30 April. -/
theorem incrementsBefore_may31 :
    let months := unitAfterUnit .monthly
    let origin : Civil := ⟨63873910800, false, by decide, by decide⟩
    let target : Civil := ⟨63884365200, false, by decide, by decide⟩
    origin < target ∧ months.guess origin target = 2 ∧
      months.incrementsBefore origin target = 3 ∧ months.incrementsBefore target origin = 0 := by
  intro months origin target
  have later : origin < target := by decide +kernel
  obtain ⟨last, -⟩ := (months.incrementsBefore_isLast origin target).2 later
  have april : months.StartsBefore origin target 3 :=
    ⟨⟨63881686800, false, by decide, by decide⟩, by decide +kernel, by decide +kernel⟩
  have may : months.incrementStart? origin 4 = some target := by decide +kernel
  have third : months.IsLastBefore origin target 3 := by
    refine ⟨april, fun d hd => ?_⟩
    cases may.symm.trans hd
    exact Int.le_refl _
  exact ⟨later, by decide +kernel, (last 3).mpr third,
    (months.incrementsBefore_isLast target origin).1 (Int.le_of_lt later)⟩

/-- Second after second, it takes three steps from one leap second to another that comes earlier in
    its day. -/
example :
    let seconds := unitAfterUnit .secondly
    let origin : Civil := ⟨63873964799, true, by decide, by decide⟩
    let target : Civil := ⟨63873964859, true, by decide, by decide⟩
    (seconds.guess origin target, seconds.incrementsBefore origin target) = (57, 60) := by
  decide +kernel

end Almanac.Rule
