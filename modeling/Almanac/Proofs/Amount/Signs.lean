import Almanac.Amount.Basic
import Almanac.Text.Numeral

/-!
# Amounts of either sign

A nominal amount is three machine numbers of one sign. This file fixes

* **which amounts can be turned around** (`Amount.Turns`): parts of one sign, and none of them the least
  number, which has no counterpart above zero. Their negation negates each part
  (`Nominal.Turns.negated_parts`);
* an amount that is turned forward (`Nominal.forward`, `Elapsed.forward`) is the magnitude of the
  amount, and no part of it is below zero (`Nominal.Turns.forward_parts`);
* an amount that is some time is negative just when its negation is not (`Amount.isNegative_negated`).
-/

namespace Almanac

/-! ## 1. Parts -/

/-- A number that fits a field of a nominal amount is kept. -/
theorem Numeral.toInt_ofInt {n : Int} (low : signedMin ≤ n) (high : n ≤ signedMax) :
    (Int32.ofInt n).toInt = n := by
  unfold signedMin at low
  unfold signedMax at high
  rw [Int32.toInt_ofInt, show Int32.size = 4294967296 from rfl]
  exact Int.bmod_eq_of_le (by omega) (by omega)

namespace Nominal

variable {n : Nominal}

/-- Parts of one sign that all have a counterpart of the other sign. -/
def Turns (n : Nominal) : Prop :=
  (n.hasPositivePart = false ∨ n.isNegative = false) ∧
    n.years ≠ Int32.minValue ∧ n.months ≠ Int32.minValue ∧ n.days ≠ Int32.minValue

instance (n : Nominal) : Decidable n.Turns := inferInstanceAs (Decidable (_ ∧ _ ∧ _ ∧ _))

/-- All parts but the least number can be negated. -/
theorem toInt_neg_of_ne {part : Int32} (h : part ≠ Int32.minValue) : (-part).toInt = -part.toInt := by
  have low := part.minValue_le_toInt
  have high := part.toInt_lt
  have other : part.toInt ≠ Int32.minValue.toInt := fun same => h (Int32.toInt_inj.mp same)
  rw [Int32.toInt_minValue] at low other
  rw [Int32.toInt_neg]
  exact Int.bmod_eq_of_le (by omega) (by omega)

theorem toInt_neg_part {part : Int32} (h : 0 ≤ part.toInt) : (-part).toInt = -part.toInt :=
  toInt_neg_of_ne fun least => absurd h (by rw [least]; decide)

theorem isNegative_iff : n.isNegative = true ↔
    n.years.toInt < 0 ∨ n.months.toInt < 0 ∨ n.days.toInt < 0 := by
  simp only [isNegative, Bool.or_eq_true, decide_eq_true_eq, Int32.lt_iff_toInt_lt, Int32.toInt_zero,
    or_assoc]

theorem hasPositivePart_iff : n.hasPositivePart = true ↔
    0 < n.years.toInt ∨ 0 < n.months.toInt ∨ 0 < n.days.toInt := by
  simp only [hasPositivePart, Bool.or_eq_true, decide_eq_true_eq, Int32.lt_iff_toInt_lt,
    Int32.toInt_zero, or_assoc]

theorem isNegative_eq_false_iff : n.isNegative = false ↔
    0 ≤ n.years.toInt ∧ 0 ≤ n.months.toInt ∧ 0 ≤ n.days.toInt := by
  rw [← Bool.not_eq_true, isNegative_iff]
  omega

theorem hasPositivePart_eq_false_iff : n.hasPositivePart = false ↔
    n.years.toInt ≤ 0 ∧ n.months.toInt ≤ 0 ∧ n.days.toInt ≤ 0 := by
  rw [← Bool.not_eq_true, hasPositivePart_iff]
  omega

theorem eq_zero_iff : n = zero ↔
    n.years.toInt = 0 ∧ n.months.toInt = 0 ∧ n.days.toInt = 0 := by
  obtain ⟨years, months, days⟩ := n
  simp only [zero, mk.injEq, ← Int32.toInt_inj, Int32.toInt_zero]

/-- **The negation has each part negated.** -/
theorem Turns.negated_parts (h : n.Turns) : n.negated.years.toInt = -n.years.toInt ∧
    n.negated.months.toInt = -n.months.toInt ∧ n.negated.days.toInt = -n.days.toInt :=
  ⟨toInt_neg_of_ne h.2.1, toInt_neg_of_ne h.2.2.1, toInt_neg_of_ne h.2.2.2⟩

/-- The amount, turned forward in time. -/
def forward (n : Nominal) : Nominal := if n.isNegative then n.negated else n

/-- Turned forward, no part is below zero. -/
theorem Turns.forward_parts (h : n.Turns) :
    0 ≤ n.forward.years.toInt ∧ 0 ≤ n.forward.months.toInt ∧ 0 ≤ n.forward.days.toInt := by
  unfold forward
  split
  · rename_i negative
    obtain ⟨years, months, days⟩ := h.negated_parts
    have parts := hasPositivePart_eq_false_iff.mp (h.1.resolve_right (by simp [negative]))
    omega
  · rename_i forward
    exact isNegative_eq_false_iff.mp (Bool.not_eq_true _ ▸ forward)

theorem ofDays_days (years : n.years = 0) (months : n.months = 0) : ofDays n.days = n := by
  obtain ⟨_, _, _⟩ := n
  cases years
  cases months
  rfl

/-- A number of days stays one turned forward, and as many of them. -/
theorem forward_of_days (years : n.years = 0) (months : n.months = 0)
    (days : n.days ≠ Int32.minValue) :
    n.forward.years = 0 ∧ n.forward.months = 0 ∧ n.forward.days.toInt = n.days.toInt.natAbs := by
  unfold forward
  split
  · rename_i negative
    have below := isNegative_iff.mp negative
    rw [years, months, Int32.toInt_zero] at below
    refine ⟨?_, ?_, ?_⟩
    · exact congrArg Neg.neg years
    · exact congrArg Neg.neg months
    · show (-n.days).toInt = _
      rw [toInt_neg_of_ne days]
      omega
  · rename_i forward
    have parts := isNegative_eq_false_iff.mp (Bool.not_eq_true _ ▸ forward)
    exact ⟨years, months, by omega⟩

theorem Turns.isNegative_negated (h : n.Turns) (some : n ≠ zero) :
    n.negated.isNegative = !n.isNegative := by
  obtain ⟨years, months, days⟩ := h.negated_parts
  rw [ne_eq, eq_zero_iff] at some
  cases negative : n.isNegative with
  | true =>
    have parts := hasPositivePart_eq_false_iff.mp (h.1.resolve_right (by simp [negative]))
    exact isNegative_eq_false_iff.mpr (by omega)
  | false =>
    have parts := isNegative_eq_false_iff.mp negative
    exact isNegative_iff.mpr (by omega)

end Nominal

/-- The amount, turned forward in time. -/
def Elapsed.forward (e : Elapsed) : Elapsed := if e.seconds < 0 then e.negated else e

theorem Elapsed.seconds_forward (e : Elapsed) : e.forward.seconds = e.seconds.natAbs := by
  unfold forward
  split
  · show -e.seconds = _
    omega
  · omega

/-! ## 2. Amounts -/

namespace Amount

variable {a : Amount}

/-- Amounts that can be turned around. -/
def Turns : Amount → Prop
  | nominal n => n.Turns
  | exact _ => True

instance (a : Amount) : Decidable a.Turns :=
  match a with
  | nominal n => inferInstanceAs (Decidable n.Turns)
  | exact _ => inferInstanceAs (Decidable True)

theorem magnitude_nominal (n : Nominal) : (nominal n).magnitude = nominal n.forward :=
  (apply_ite nominal _ _ _).symm

theorem magnitude_exact (e : Elapsed) : (exact e).magnitude = exact e.forward := by
  unfold magnitude Elapsed.forward isNegative
  simp only [decide_eq_true_eq]
  exact (apply_ite exact _ _ _).symm

/-- **Some time is negative just when its negation is not.** -/
theorem isNegative_negated (h : a.Turns) (some : a.isZero = false) :
    a.negated.isNegative = !a.isNegative := by
  cases a with
  | nominal n => exact Nominal.Turns.isNegative_negated h (of_decide_eq_false some)
  | exact e =>
    have some : e.seconds ≠ 0 := of_decide_eq_false some
    show decide (-e.seconds < 0) = !decide (e.seconds < 0)
    rw [← decide_not, decide_eq_decide]
    omega

end Amount

end Almanac
