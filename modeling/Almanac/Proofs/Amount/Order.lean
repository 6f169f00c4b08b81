import Almanac.Period.Basic
import Almanac.Proofs.Amount.Signs

/-!
# The order of amounts

Amounts are compared by sign first. Those of one sign are compared as they are turned forward, and below
zero the answer is turned around. This file fixes

* amounts that the order does not tell apart are one amount (`Amount.compare_eq_iff`);
* **the keys of an amount** are the rank of its sign, the rank of its kind among amounts of that sign, and
  its parts. Amounts are in the order of their keys, one key after the other, wherever each part has a
  counterpart of the other sign (`Amount.compare_eq_keys`). The least number has none: turned forward it
  stays where it is;
* the keys of a negation: each rank is turned around, each part negated (`Amount.signRank_negated`,
  `Amount.kindRank_negated`, `Amount.parts_negated`), so the negations of two amounts compare the other way
  round than the amounts (`Amount.compare_negated`). Nothing at all is left out, which no negation makes
  negative;
* the order is a total order with the negative amounts first (`Amount.compare_lawful_either_sign`).
-/

namespace Almanac

namespace Amount

variable {a b : Amount}

/-! ## 1. What is told apart -/

theorem compareFields_eq_then (m n : Nominal) : compareFields m n = (Ord.compare m.years n.years).then
    ((Ord.compare m.months n.months).then (Ord.compare m.days n.days)) := rfl

theorem compareFields_eq_iff {m n : Nominal} : compareFields m n = .eq ↔ m = n := by
  rw [compareFields_eq_then, Ordering.then_eq_eq, Ordering.then_eq_eq, Std.compare_eq_iff_eq,
    Std.compare_eq_iff_eq, Std.compare_eq_iff_eq]
  cases m
  cases n
  exact (Nominal.mk.injEq ..).to_iff.symm

theorem compareForward_eq_iff : compareForward a b = .eq ↔ a = b := by
  cases a with
  | nominal m =>
    cases b with
    | nominal n => exact compareFields_eq_iff.trans (nominal.injEq m n).to_iff.symm
    | exact f => exact ⟨nofun, nofun⟩
  | exact e =>
    cases b with
    | nominal n => exact ⟨nofun, nofun⟩
    | exact f =>
      cases e
      cases f
      refine Int.compare_eq_eq.trans ⟨fun same => ?_, fun same => ?_⟩
      · cases same
        rfl
      · cases same
        rfl

theorem negated_negated (a : Amount) : a.negated.negated = a := by
  cases a with
  | nominal n =>
    cases n
    simp only [negated, Nominal.negated, Int32.neg_neg]
  | exact e =>
    cases e
    simp only [negated, Elapsed.negated, Int.neg_neg]

/-- Amounts of one sign that are turned forward to one amount were one amount. -/
theorem magnitude_inj (h : a.isNegative = b.isNegative) : a.magnitude = b.magnitude ↔ a = b := by
  refine ⟨fun same => ?_, congrArg magnitude⟩
  unfold magnitude at same
  rw [h] at same
  split at same
  · rw [← negated_negated a, same, negated_negated]
  · exact same

/-- **The order tells all amounts apart.** -/
theorem compare_eq_iff {a b : Amount} : compare a b = .eq ↔ a = b := by
  cases ha : a.isNegative <;> cases hb : b.isNegative
  case true.false =>
    rw [compare_of_signs ha hb]
    exact ⟨nofun, fun same => by rw [same, hb] at ha; cases ha⟩
  case false.true =>
    rw [compare_swap, compare_of_signs hb ha]
    exact ⟨nofun, fun same => by rw [same, hb] at ha; cases ha⟩
  case true.true =>
    rw [compare_of_back ha hb, Ordering.swap_eq_eq, compareForward_eq_iff, magnitude_inj (ha.trans hb.symm)]
  case false.false =>
    rw [compare_of_forward ha hb, compareForward_eq_iff, magnitude_inj (ha.trans hb.symm)]

/-! ## 2. The keys -/

/-- Zero for the amounts that go back in time, and one for the others. -/
def signRank (a : Amount) : Nat :=
  if a.isNegative then 0 else 1

/-- The place of an amount's kind among amounts of its sign: the longer kind is the nominal one. -/
def kindRank (a : Amount) : Nat :=
  match a with
  | nominal _ => if a.isNegative then 0 else 1
  | exact _ => if a.isNegative then 1 else 0

/-- The parts of an amount, the weightiest first. -/
def parts : Amount → Int × Int × Int
  | nominal n => (n.years.toInt, n.months.toInt, n.days.toInt)
  | exact e => (e.seconds, 0, 0)

/-- The order of the parts of two amounts, one after the other. -/
def compareParts (a b : Amount) : Ordering :=
  (Ord.compare a.parts.1 b.parts.1).then
    ((Ord.compare a.parts.2.1 b.parts.2.1).then (Ord.compare a.parts.2.2 b.parts.2.2))

/-- Amounts whose parts all have a counterpart of the other sign. -/
def HasOpposite : Amount → Prop
  | nominal n => n.years ≠ Int32.minValue ∧ n.months ≠ Int32.minValue ∧ n.days ≠ Int32.minValue
  | exact _ => True

theorem Turns.hasOpposite (h : a.Turns) : a.HasOpposite := by
  cases a with
  | nominal n => exact h.2
  | exact e => trivial

/-- The parts of the negation are the parts, negated. -/
theorem parts_negated (h : a.HasOpposite) : a.negated.parts.1 = -a.parts.1 ∧
    a.negated.parts.2.1 = -a.parts.2.1 ∧ a.negated.parts.2.2 = -a.parts.2.2 := by
  cases a with
  | nominal n =>
    exact ⟨Nominal.toInt_neg_of_ne h.1, Nominal.toInt_neg_of_ne h.2.1, Nominal.toInt_neg_of_ne h.2.2⟩
  | exact e => exact ⟨rfl, rfl, rfl⟩

/-- Numbers that are negated compare the other way round, -/
theorem compare_neg (x y : Int) : Ord.compare (-x) (-y) = (Ord.compare x y).swap := by
  rcases Int.lt_trichotomy x y with less | same | more
  · rw [Int.compare_eq_lt.mpr less, Int.compare_eq_gt.mpr (by omega)]
    rfl
  · rw [same, Int.compare_eq_eq.mpr rfl, Int.compare_eq_eq.mpr rfl]
    rfl
  · rw [Int.compare_eq_gt.mpr more, Int.compare_eq_lt.mpr (by omega)]
    rfl

/-- and so do the parts of amounts that are. -/
theorem compareParts_negated (ha : a.HasOpposite) (hb : b.HasOpposite) :
    compareParts a.negated b.negated = (compareParts a b).swap := by
  obtain ⟨first, second, third⟩ := parts_negated ha
  obtain ⟨first', second', third'⟩ := parts_negated hb
  unfold compareParts
  rw [first, second, third, first', second', third', compare_neg, compare_neg, compare_neg,
    Ordering.swap_then, Ordering.swap_then]

theorem compare_toInt (x y : Int32) : Ord.compare x y = Ord.compare x.toInt y.toInt := by
  show compareOfLessAndEq x y = compareOfLessAndEq x.toInt y.toInt
  unfold compareOfLessAndEq
  simp only [Int32.lt_iff_toInt_lt, Int32.toInt_inj]

theorem compareForward_nominal (m n : Nominal) :
    compareForward (nominal m) (nominal n) = compareParts (nominal m) (nominal n) := by
  show compareFields m n = _
  rw [compareFields_eq_then, compare_toInt, compare_toInt, compare_toInt]
  rfl

theorem compareForward_exact (e f : Elapsed) :
    compareForward (exact e) (exact f) = compareParts (exact e) (exact f) :=
  Ordering.then_eq.symm

/-- Amounts of one kind that go back are turned forward by negation, which turns the order of the parts
    around a first time. -/
theorem compareForward_negated (ha : a.HasOpposite) (hb : b.HasOpposite)
    (kind : compareForward a.negated b.negated = compareParts a.negated b.negated) :
    (compareForward a.negated b.negated).swap = compareParts a b := by
  rw [kind, compareParts_negated ha hb, Ordering.swap_swap]

/-- **Amounts are in the order of their keys.** -/
theorem compare_eq_keys (ha : a.HasOpposite) (hb : b.HasOpposite) : compare a b =
    (Ord.compare a.signRank b.signRank).then
      ((Ord.compare a.kindRank b.kindRank).then (compareParts a b)) := by
  unfold signRank kindRank
  cases signA : a.isNegative <;> cases signB : b.isNegative
  case true.false => exact compare_of_signs signA signB
  case false.true =>
    rw [compare_swap, compare_of_signs signB signA]
    rfl
  case false.false =>
    rw [compare_of_forward signA signB]
    unfold magnitude
    rw [signA, signB]
    cases a with
    | nominal m =>
      cases b with
      | nominal n => exact compareForward_nominal m n
      | exact f => rfl
    | exact e =>
      cases b with
      | nominal n => rfl
      | exact f => exact compareForward_exact e f
  case true.true =>
    rw [compare_of_back signA signB]
    unfold magnitude
    rw [signA, signB]
    cases a with
    | nominal m =>
      cases b with
      | nominal n => exact compareForward_negated ha hb (compareForward_nominal _ _)
      | exact f => rfl
    | exact e =>
      cases b with
      | nominal n => rfl
      | exact f => exact compareForward_negated ha hb (compareForward_exact _ _)

/-- The least number of days stays where it is as it is turned forward, and is put behind five days back. -/
example : compare (nominal (Nominal.ofDays Int32.minValue)) (nominal (Nominal.ofDays (-5))) = .gt := by
  decide

/-! ## 3. Negation -/

theorem signRank_negated (h : a.Turns) (some : a.isZero = false) :
    a.negated.signRank = 1 - a.signRank := by
  unfold signRank
  rw [isNegative_negated h some]
  cases a.isNegative <;> rfl

theorem kindRank_negated (h : a.Turns) (some : a.isZero = false) :
    a.negated.kindRank = 1 - a.kindRank := by
  cases a with
  | nominal n =>
    show (if (nominal n).negated.isNegative then 0 else 1) = 1 - if (nominal n).isNegative then 0 else 1
    rw [isNegative_negated h some]
    cases (nominal n).isNegative <;> rfl
  | exact e =>
    show (if (exact e).negated.isNegative then 1 else 0) = 1 - if (exact e).isNegative then 1 else 0
    rw [isNegative_negated h some]
    cases (exact e).isNegative <;> rfl

theorem signRank_le (a : Amount) : a.signRank ≤ 1 := by
  unfold signRank
  split <;> decide

theorem kindRank_le (a : Amount) : a.kindRank ≤ 1 := by
  unfold kindRank
  split <;> split <;> decide

/-- Ranks that are turned around compare the other way round. -/
theorem compare_one_sub {m n : Nat} (hm : m ≤ 1) (hn : n ≤ 1) :
    Ord.compare (1 - m) (1 - n) = (Ord.compare m n).swap := by
  have all : ∀ m n : Fin 2, Ord.compare (1 - m.val) (1 - n.val) = (Ord.compare m.val n.val).swap := by
    decide
  exact all ⟨m, by omega⟩ ⟨n, by omega⟩

theorem neg_ne_minValue {part : Int32} (h : part ≠ Int32.minValue) : -part ≠ Int32.minValue := by
  intro least
  have back : part = -Int32.minValue := by rw [← least, Int32.neg_neg]
  exact h (back.trans (by decide))

theorem HasOpposite.negated (h : a.HasOpposite) : a.negated.HasOpposite := by
  cases a with
  | nominal n => exact ⟨neg_ne_minValue h.1, neg_ne_minValue h.2.1, neg_ne_minValue h.2.2⟩
  | exact e => trivial

/-- **Negations compare the other way round.** -/
theorem compare_negated (ha : a.Turns) (hb : b.Turns) (someA : a.isZero = false)
    (someB : b.isZero = false) : compare a.negated b.negated = (compare a b).swap := by
  rw [compare_eq_keys ha.hasOpposite.negated hb.hasOpposite.negated,
    compare_eq_keys ha.hasOpposite hb.hasOpposite, signRank_negated ha someA, signRank_negated hb someB,
    kindRank_negated ha someA, kindRank_negated hb someB,
    compare_one_sub a.signRank_le b.signRank_le, compare_one_sub a.kindRank_le b.kindRank_le,
    compareParts_negated ha.hasOpposite hb.hasOpposite, Ordering.swap_then, Ordering.swap_then]

/-! ## 4. The order -/

theorem compare_exact_nominal {e : Elapsed} {n : Nominal} (he : (exact e).isNegative = false)
    (hn : (nominal n).isNegative = false) : compare (exact e) (nominal n) = .lt := by
  rw [compare_of_forward he hn]
  unfold magnitude
  rw [he, hn]
  rfl

/-- **Amounts are in a total order across both signs.** It tells all of them apart; the negative ones
    come first, and among the others the exact ones come before the nominal ones. Where both are some
    time and can be turned around, their negations compare the other way round. -/
theorem compare_lawful_either_sign (a b c : Amount) :
    ((compare a b).isLE = true ∨ (compare b a).isLE = true) ∧
      ((compare a b).isLE = true → (compare b c).isLE = true → (compare a c).isLE = true) ∧
      ((compare a b).isLE = true ∧ (compare b a).isLE = true ↔ a = b) ∧
      (compare a b = .eq ↔ a = b) ∧
      (a.isNegative = true → b.isNegative = false → compare a b = .lt) ∧
      (∀ e n, a = exact e → b = nominal n → a.isNegative = false → b.isNegative = false →
        compare a b = .lt) ∧
      (a.Turns → b.Turns → a.isZero = false → b.isZero = false →
        compare a.negated b.negated = (compare a b).swap) := by
  have swap : compare b a = (compare a b).swap := Std.OrientedCmp.eq_swap
  refine ⟨?_, Std.TransCmp.isLE_trans, ?_, compare_eq_iff, compare_of_signs, ?_, compare_negated⟩
  · rw [swap]
    cases compare a b with
    | lt => exact .inl rfl
    | eq => exact .inl rfl
    | gt => exact .inr rfl
  · rw [swap, ← compare_eq_iff]
    cases compare a b with
    | lt => simp
    | eq => simp
    | gt => simp
  · intro e n ha hb he hn
    subst ha hb
    exact compare_exact_nominal he hn

/-- A month and forty days back, an hour, and a day. -/
theorem compare_monthBack_hour_day :
    let monthBack : Amount := nominal ⟨0, -1, -40⟩
    let hour : Amount := exact ⟨3600, by decide⟩
    let day : Amount := nominal ⟨0, 0, 1⟩
    ((compare monthBack hour).isLE = true ∧ (compare hour day).isLE = true ∧
        (compare monthBack day).isLE = true) ∧
      (monthBack.isNegative = true ∧ hour.isNegative = false ∧ compare monthBack hour = .lt) ∧
      (day.isNegative = false ∧ compare hour day = .lt) ∧
      (monthBack.Turns ∧ hour.Turns ∧ monthBack.isZero = false ∧ hour.isZero = false ∧
        compare monthBack.negated hour.negated = (compare monthBack hour).swap) := by
  intro monthBack hour day
  obtain ⟨-, trans, -, -, signs, -, turn⟩ := compare_lawful_either_sign monthBack hour day
  obtain ⟨-, -, -, -, -, kinds, -⟩ := compare_lawful_either_sign hour day day
  have first := signs (by decide) (by decide)
  have second := kinds _ _ rfl rfl (by decide) (by decide)
  have low : (compare monthBack hour).isLE = true := by rw [first]; rfl
  have high : (compare hour day).isLE = true := by rw [second]; rfl
  exact ⟨⟨low, high, trans low high⟩, ⟨by decide, by decide, first⟩, ⟨by decide, second⟩,
    by decide, by decide, by decide, by decide, turn (by decide) (by decide) (by decide) (by decide)⟩

/-- Nothing at all is not negative in either direction, so it does not turn the order around. -/
example : compare (nominal Nominal.zero) (exact ⟨3600, by decide⟩) = .gt ∧
    compare (nominal Nominal.zero).negated (exact ⟨3600, by decide⟩ : Amount).negated = .gt := by
  decide

end Amount

end Almanac
