import Almanac.Ascending
import Mathlib.Data.List.Sort

/-!
# Lists that rise

Whoever goes through a list and passes over everything that is not later than the last value kept,
keeps a rising list. This file fixes

* **the values that rise above a mark** (`climb`): their keys ascend strictly whatever the list was
  (`pairwise_climb`), and no key is lost when the list never falls (`mem_climb_iff`). What lies
  below a bound has no say in which values from the bound on are kept (`mem_climb_append_iff`);
* that putting in order commutes with a map that keeps the order (`ascending_map`);
* that a test which stays failed once it has failed cuts a list off where it filters it
  (`takeWhile_eq_filter`);
* **a list whose keys ascend is told by its members** (`eq_of_ascending`), and what comes after one
  of them is the next one (`find?_above_getElem?`). Of those that pass a test the first one is the
  earliest (`find?_eq_some_iff_earliest`).
-/

namespace Almanac

variable {α β : Type} {key : α → Int}

/-! ## 1. Rising above a mark -/

/-- The values whose key is above the mark and above the keys of all values kept before. -/
def climb (key : α → Int) : (mark : Int) → List α → List α
  | _, [] => []
  | mark, a :: rest => if mark < key a then a :: climb key (key a) rest else climb key mark rest

theorem climb_cons_of_lt {mark : Int} {a : α} (rest : List α) (h : mark < key a) :
    climb key mark (a :: rest) = a :: climb key (key a) rest :=
  if_pos h

theorem climb_cons_of_not_lt {mark : Int} {a : α} (rest : List α) (h : ¬ mark < key a) :
    climb key mark (a :: rest) = climb key mark rest :=
  if_neg h

theorem mem_of_mem_climb {mark : Int} {values : List α} {a : α} (h : a ∈ climb key mark values) :
    a ∈ values ∧ mark < key a := by
  induction values generalizing mark with
  | nil => cases h
  | cons b rest ih =>
    by_cases hb : mark < key b
    · rw [climb_cons_of_lt rest hb] at h
      rcases List.mem_cons.mp h with rfl | h
      · exact ⟨List.mem_cons_self, hb⟩
      · obtain ⟨mem, lt⟩ := ih h
        exact ⟨List.mem_cons_of_mem b mem, by omega⟩
    · rw [climb_cons_of_not_lt rest hb] at h
      obtain ⟨mem, lt⟩ := ih h
      exact ⟨List.mem_cons_of_mem b mem, lt⟩

/-- **What rises above a mark ascends strictly.** -/
theorem pairwise_climb (key : α → Int) (mark : Int) (values : List α) :
    (climb key mark values).Pairwise fun a b => key a < key b := by
  induction values generalizing mark with
  | nil => exact List.Pairwise.nil
  | cons a rest ih =>
    by_cases ha : mark < key a
    · rw [climb_cons_of_lt rest ha]
      exact List.pairwise_cons.mpr ⟨fun b hb => (mem_of_mem_climb hb).2, ih (key a)⟩
    · rw [climb_cons_of_not_lt rest ha]
      exact ih mark

/-- A list that ascends strictly above the mark is kept as it is. -/
theorem climb_eq_self {mark : Int} {values : List α} (h : values.Pairwise fun a b => key a < key b)
    (above : ∀ a ∈ values, mark < key a) : climb key mark values = values := by
  induction values generalizing mark with
  | nil => rfl
  | cons a rest ih =>
    obtain ⟨first, later⟩ := List.pairwise_cons.mp h
    rw [climb_cons_of_lt rest (above a List.mem_cons_self), ih later first]

/-- **A list that never falls keeps all its values above the mark.** -/
theorem mem_climb_iff {mark : Int} {values : List α} {a : α}
    (h : values.Pairwise fun a b => key a < key b ∨ a = b) :
    a ∈ climb key mark values ↔ a ∈ values ∧ mark < key a := by
  refine ⟨mem_of_mem_climb, ?_⟩
  rintro ⟨mem, lt⟩
  induction values generalizing mark with
  | nil => cases mem
  | cons b rest ih =>
    obtain ⟨first, later⟩ := List.pairwise_cons.mp h
    by_cases hb : mark < key b
    · rw [climb_cons_of_lt rest hb]
      rcases List.mem_cons.mp mem with rfl | mem
      · exact List.mem_cons_self
      · rcases first a mem with above | rfl
        · exact List.mem_cons_of_mem b (ih later mem above)
        · exact List.mem_cons_self
    · rw [climb_cons_of_not_lt rest hb]
      rcases List.mem_cons.mp mem with rfl | mem
      · exact absurd lt hb
      · exact ih later mem lt

/-- Marks below a bound make no difference from the bound on. -/
theorem mem_climb_iff_of_marks {mark mark' bound : Int} {values : List α} {a : α}
    (low : mark < bound) (low' : mark' < bound) (ha : bound ≤ key a) :
    a ∈ climb key mark values ↔ a ∈ climb key mark' values := by
  induction values generalizing mark mark' with
  | nil => exact Iff.rfl
  | cons b rest ih =>
    by_cases hb : bound ≤ key b
    · rw [climb_cons_of_lt rest (by omega), climb_cons_of_lt rest (by omega)]
    · -- below the bound it may be kept or not, and either way the mark stays below
      have other : a ≠ b := fun same => hb (same ▸ ha)
      have skip : ∀ m, m < bound → (a ∈ climb key m (b :: rest) ↔ a ∈ climb key mark rest) := by
        intro m hm
        by_cases rises : m < key b
        · rw [climb_cons_of_lt rest rises, List.mem_cons, or_iff_right other]
          exact ih (by omega) low
        · rw [climb_cons_of_not_lt rest rises]
          exact ih hm low
      rw [skip mark low, skip mark' low']

/-- **What lies below a bound has no say from the bound on**: a list may be taken up behind it. -/
theorem mem_climb_append_iff {mark bound : Int} {passed rest : List α} {a : α}
    (below : ∀ b ∈ passed, key b < bound) (ha : bound ≤ key a) :
    a ∈ climb key mark (passed ++ rest) ↔ a ∈ climb key mark rest := by
  induction passed generalizing mark with
  | nil => exact Iff.rfl
  | cons b later ih =>
    have hb := below b List.mem_cons_self
    have ih := fun m => @ih m fun c hc => below c (List.mem_cons_of_mem b hc)
    rw [List.cons_append]
    by_cases rises : mark < key b
    · have other : a ≠ b := fun same => by
        rw [same] at ha
        omega
      rw [climb_cons_of_lt _ rises, List.mem_cons, or_iff_right other, ih]
      exact mem_climb_iff_of_marks hb (by omega) ha
    · rw [climb_cons_of_not_lt _ rises, ih]

/-! ## 2. Order under a map -/

theorem thin_map {key' : β → Int} (f : α → β) {values : List α}
    (h : ∀ a ∈ values, ∀ b ∈ values, key' (f a) = key' (f b) ↔ key a = key b) :
    thin key' (values.map f) = (thin key values).map f := by
  induction values with
  | nil => rfl
  | cons a rest ih =>
    have inner := ih fun b hb c hc => h b (List.mem_cons_of_mem a hb) c (List.mem_cons_of_mem a hc)
    rw [List.map_cons]
    simp only [thin, inner]
    cases hr : thin key rest with
    | nil => rfl
    | cons b kept =>
      have mem : b ∈ rest := mem_of_mem_thin (by rw [hr]; exact List.mem_cons_self)
      have same := h a List.mem_cons_self b (List.mem_cons_of_mem a mem)
      simp only [List.map_cons]
      by_cases hab : key a = key b
      · rw [if_pos hab, if_pos (same.mpr hab), List.map_cons]
      · rw [if_neg hab, if_neg (fun e => hab (same.mp e)), List.map_cons, List.map_cons]

/-- **Putting in order commutes with a map that keeps the order of the keys.** -/
theorem ascending_map {key' : β → Int} (f : α → β) {values : List α}
    (h : ∀ a ∈ values, ∀ b ∈ values, key' (f a) ≤ key' (f b) ↔ key a ≤ key b) :
    ascending key' (values.map f) = (ascending key values).map f := by
  have sorted : (values.map f).mergeSort (fun a b => key' a ≤ key' b) =
      (values.mergeSort fun a b => key a ≤ key b).map f := by
    symm
    refine List.map_mergeSort fun a ha b hb => ?_
    exact decide_eq_decide.mpr (h a ha b hb).symm
  unfold ascending
  rw [sorted]
  refine thin_map f fun a ha b hb => ?_
  have ha := List.mem_mergeSort.mp ha
  have hb := List.mem_mergeSort.mp hb
  have := h a ha b hb
  have := h b hb a ha
  omega

/-! ## 3. Tests that stay failed -/

theorem takeWhile_eq_filter {p : α → Bool} {values : List α}
    (h : values.Pairwise fun a b => p b = true → p a = true) :
    values.takeWhile p = values.filter p := by
  induction values with
  | nil => rfl
  | cons a rest ih =>
    obtain ⟨first, later⟩ := List.pairwise_cons.mp h
    by_cases ha : p a = true
    · rw [List.takeWhile_cons_of_pos ha, List.filter_cons_of_pos ha, ih later]
    · rw [List.takeWhile_cons_of_neg ha, List.filter_cons_of_neg ha]
      symm
      exact List.filter_eq_nil_iff.mpr fun b hb hp => ha (first b hb hp)

/-! ## 4. Strictly ascending lists -/

/-- **Two lists whose keys ascend strictly are one list when they have the same members.** -/
theorem eq_of_ascending {l l' : List α} (h : l.Pairwise fun a b => key a < key b)
    (h' : l'.Pairwise fun a b => key a < key b) (mem : ∀ a, a ∈ l ↔ a ∈ l') : l = l' := by
  have : Std.Irrefl fun a b : α => key a < key b := ⟨fun a => Int.lt_irrefl (key a)⟩
  have : Std.Antisymm fun a b : α => key a < key b :=
    ⟨fun a b hab hba => absurd hab (Int.not_lt.mpr (Int.le_of_lt hba))⟩
  exact h.eq_of_mem_iff h' mem

/-- **The first value above one of an ascending list is the next one of the list.** -/
theorem find?_above_getElem? {l : List α} (h : l.Pairwise fun a b => key a < key b) {n : Nat}
    {a : α} (ha : l[n]? = some a) : (l.find? fun b => key a < key b) = l[n + 1]? := by
  induction l generalizing n with
  | nil => cases ha
  | cons b rest ih =>
    obtain ⟨first, later⟩ := List.pairwise_cons.mp h
    cases n with
    | zero =>
      cases ha
      rw [List.find?_cons_of_neg (by simp), List.getElem?_cons_succ]
      cases rest with
      | nil => rfl
      | cons c rest =>
        rw [List.find?_cons_of_pos (by simpa using first c List.mem_cons_self)]
        rfl
    | succ n =>
      rw [List.getElem?_cons_succ] at ha ⊢
      have above := first a (List.mem_of_getElem? ha)
      rw [List.find?_cons_of_neg (by simp; omega)]
      exact ih later ha

/-- The first to pass a test in a list whose keys ascend is the earliest one that passes it. -/
theorem find?_eq_some_iff_earliest {l : List α} (h : l.Pairwise fun a b => key a < key b)
    {f : α → Bool} {a : α} :
    l.find? f = some a ↔ a ∈ l ∧ f a = true ∧ ∀ b ∈ l, f b = true → key a ≤ key b := by
  rw [List.find?_eq_some_iff_append]
  constructor
  · rintro ⟨passes, before, after, rfl, failed⟩
    refine ⟨List.mem_append_right before List.mem_cons_self, passes, fun b hb passes' => ?_⟩
    rcases List.mem_append.mp hb with earlier | later
    · have := failed b earlier
      rw [passes'] at this
      cases this
    · rcases List.mem_cons.mp later with rfl | later
      · exact Int.le_refl _
      · have rest := (List.pairwise_append.mp h).2.1
        exact Int.le_of_lt ((List.pairwise_cons.mp rest).1 b later)
  · rintro ⟨mem, passes, earliest⟩
    obtain ⟨before, after, rfl⟩ := List.append_of_mem mem
    refine ⟨passes, before, after, rfl, fun b earlier => ?_⟩
    have lt := (List.pairwise_append.mp h).2.2 b earlier a List.mem_cons_self
    rw [Bool.not_eq_true']
    refine Bool.eq_false_iff.mpr fun passes' => ?_
    exact Int.not_le.mpr lt (earliest b (List.mem_append_left _ earlier) passes')

end Almanac
