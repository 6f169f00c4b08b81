import Mathlib.Data.List.Forall2

/-!
# Runs of changes in which the last one counts

A state is changed step by step, and each change has a key. This file fixes

* **the last member of a list with a key** (`lastAt?`), also among what a list selects
  (`lastAt?_filterMap_eq_some_iff`) and among readings (`lastAt?_of_forall₂`);
* **when only the last change with each key counts** (`Overwrites`): a change undoes what an earlier one
  with its key has done, and changes with different keys commute. Then runs with the same last change
  for every key end alike (`Overwrites.foldl_eq`).
-/

namespace Almanac

/-! ## 1. Last members -/

section Last

variable {σ α β κ : Type} [DecidableEq κ] {key : α → κ} {k : κ} {a b : α} {as bs : List α}

/-- The last member with a key. -/
def lastAt? (key : α → κ) (k : κ) : List α → Option α
  | [] => none
  | a :: as => (lastAt? key k as).or (if key a = k then some a else none)

theorem lastAt?_cons_of_ne (other : key a ≠ k) (as : List α) :
    lastAt? key k (a :: as) = lastAt? key k as := by
  rw [lastAt?, if_neg other, Option.or_none]

theorem lastAt?_cons_of_some (h : lastAt? key k as = some b) (a : α) :
    lastAt? key k (a :: as) = some b := by
  rw [lastAt?, h, Option.some_or]

theorem lastAt?_cons_of_none (h : lastAt? key k as = none) (own : key a = k) :
    lastAt? key k (a :: as) = some a := by
  rw [lastAt?, h, if_pos own, Option.none_or]

theorem lastAt?_eq_none_iff : lastAt? key k as = none ↔ ∀ a ∈ as, key a ≠ k := by
  induction as with
  | nil => exact iff_of_true rfl nofun
  | cons a as ih =>
    rw [List.forall_mem_cons, ← ih, lastAt?, Option.or_eq_none_iff, and_comm]
    simp only [ite_eq_right_iff, reduceCtorEq, imp_false]

theorem lastAt?_append_cons {later : List α} (own : key a = k) (others : ∀ b ∈ later, key b ≠ k)
    (earlier : List α) : lastAt? key k (earlier ++ a :: later) = some a := by
  induction earlier with
  | nil => exact lastAt?_cons_of_none (lastAt?_eq_none_iff.mpr others) own
  | cons b earlier ih => exact lastAt?_cons_of_some ih b

/-- **The last member with a key** has the key, and no later one has it. -/
theorem lastAt?_eq_some_iff : lastAt? key k as = some a ↔
    ∃ earlier later, as = earlier ++ a :: later ∧ key a = k ∧ ∀ b ∈ later, key b ≠ k := by
  refine ⟨fun h => ?_, fun ⟨earlier, later, split, own, others⟩ => ?_⟩
  · induction as with
    | nil => cases h
    | cons b as ih =>
      cases last : lastAt? key k as with
      | some c =>
        rw [lastAt?_cons_of_some last, Option.some.injEq] at h
        obtain ⟨earlier, later, rfl, rest⟩ := ih (last.trans (congrArg some h))
        exact ⟨b :: earlier, later, rfl, rest⟩
      | none =>
        rw [lastAt?, last, Option.none_or] at h
        obtain ⟨own, same⟩ := Option.ite_none_right_eq_some.mp h
        obtain rfl := Option.some.inj same
        exact ⟨[], as, rfl, own, lastAt?_eq_none_iff.mp last⟩
  · rw [split]
    exact lastAt?_append_cons own others earlier

theorem key_of_lastAt? (h : lastAt? key k as = some a) : key a = k := by
  obtain ⟨-, -, -, own, -⟩ := lastAt?_eq_some_iff.mp h
  exact own

theorem lastAt?_filter_self : lastAt? key k (as.filter fun a => key a ≠ k) = none := by
  refine lastAt?_eq_none_iff.mpr fun a mem => ?_
  exact of_decide_eq_true (List.mem_filter.mp mem).2

theorem lastAt?_filter_of_ne {j : κ} (other : j ≠ k) (as : List α) :
    lastAt? key j (as.filter fun a => key a ≠ k) = lastAt? key j as := by
  induction as with
  | nil => rfl
  | cons a as ih =>
    by_cases own : key a = k
    · rw [List.filter_cons_of_neg (by simp [own]), ih, lastAt?_cons_of_ne (own ▸ other.symm)]
    · rw [List.filter_cons_of_pos (by simp [own]), lastAt?, lastAt?, ih]

/-- **The last member with a key, among what a list selects.** -/
theorem lastAt?_filterMap_eq_some_iff {f : β → Option α} {bs : List β} :
    lastAt? key k (bs.filterMap f) = some a ↔
      ∃ earlier b later, bs = earlier ++ b :: later ∧ f b = some a ∧ key a = k ∧
        ∀ c ∈ later, ∀ a', f c = some a' → key a' ≠ k := by
  rw [lastAt?_eq_some_iff]
  refine ⟨fun ⟨before, behind, split, own, others⟩ => ?_, ?_⟩
  · obtain ⟨front, back, rfl, -, rest⟩ := List.filterMap_eq_append_iff.mp split
    obtain ⟨skipped, b, later, rfl, -, chosen, rfl⟩ := List.filterMap_eq_cons_iff.mp rest
    refine ⟨front ++ skipped, b, later, (List.append_assoc ..).symm, chosen, own, ?_⟩
    exact fun c mem a' hc => others a' (List.mem_filterMap.mpr ⟨c, mem, hc⟩)
  · intro ⟨earlier, b, later, split, chosen, own, others⟩
    refine ⟨earlier.filterMap f, later.filterMap f, ?_, own, fun a' mem => ?_⟩
    · rw [split, List.filterMap_append, List.filterMap_cons_some chosen]
    · obtain ⟨c, hc, e⟩ := List.mem_filterMap.mp mem
      exact others c hc a' e

variable {R : α → β → Prop} {keyOf : β → κ} {cs ds : List β}

/-- What is last among readings is the reading of what is last. -/
theorem rel_lastAt? (keys : ∀ a c, R a c → keyOf c = key a) (h : List.Forall₂ R as cs) (k : κ) :
    Option.Rel R (lastAt? key k as) (lastAt? keyOf k cs) := by
  induction h with
  | nil => exact .none
  | @cons a c as cs first _ ih =>
    rw [lastAt?, lastAt?, keys a c first]
    generalize lastAt? key k as = a', lastAt? keyOf k cs = c' at ih
    cases ih with
    | some last => exact .some last
    | none =>
      split
      · exact .some first
      · exact .none

/-- **Readings of lists with the same last members have the same last members.** -/
theorem lastAt?_eq_of_forall₂ (keys : ∀ a c, R a c → keyOf c = key a)
    (only : ∀ a c d, R a c → R a d → c = d) (h : List.Forall₂ R as cs) (h' : List.Forall₂ R bs ds)
    (same : ∀ k, lastAt? key k as = lastAt? key k bs) (k : κ) :
    lastAt? keyOf k cs = lastAt? keyOf k ds := by
  have first := rel_lastAt? keys h k
  have second := rel_lastAt? keys h' k
  rw [same k] at first
  generalize lastAt? key k bs = b, lastAt? keyOf k cs = c, lastAt? keyOf k ds = d at first second
  cases first with
  | none =>
    cases second
    rfl
  | some hc =>
    cases second with
    | some hd => exact congrArg some (only _ _ _ hc hd)

/-! ## 2. Changes -/

/-- Changes of which the last one for each key counts. -/
structure Overwrites (f : σ → α → σ) (key : α → κ) : Prop where
  undo : ∀ s a b, key a = key b → f (f s a) b = f s b
  apart : ∀ s a b, key a ≠ key b → f (f s a) b = f (f s b) a

namespace Overwrites

variable {f : σ → α → σ}

/-- **The last change with a key can be made first**, and the others with that key left out. -/
theorem foldl_of_lastAt? (h : Overwrites f key) (last : lastAt? key k as = some a) (s : σ) :
    as.foldl f s = (as.filter fun a => key a ≠ k).foldl f (f s a) := by
  induction as generalizing s with
  | nil => cases last
  | cons b as ih =>
    have own := key_of_lastAt? last
    show as.foldl f (f s b) = _
    cases later : lastAt? key k as with
    | some c =>
      rw [lastAt?_cons_of_some later] at last
      rw [ih (later.trans last)]
      by_cases same : key b = k
      · rw [List.filter_cons_of_neg (by simp [same]), h.undo s b a (same.trans own.symm)]
      · rw [List.filter_cons_of_pos (by simp [same]), h.apart s b a (own ▸ same)]
        rfl
    | none =>
      by_cases same : key b = k
      · rw [lastAt?_cons_of_none later same, Option.some.injEq] at last
        rw [List.filter_cons_of_neg (by simp [same]), last, List.filter_eq_self.mpr]
        exact fun c mem => decide_eq_true (lastAt?_eq_none_iff.mp later c mem)
      · rw [lastAt?_cons_of_ne same, later] at last
        cases last

/-- **Runs with the same last change for every key end alike.** -/
theorem foldl_eq (h : Overwrites f key) (same : ∀ k, lastAt? key k as = lastAt? key k bs) (s : σ) :
    as.foldl f s = bs.foldl f s := by
  induction as generalizing bs s with
  | nil =>
    cases bs with
    | nil => rfl
    | cons b bs =>
      have none := lastAt?_eq_none_iff.mp (same (key b)).symm b List.mem_cons_self
      exact absurd rfl none
  | cons a as ih =>
    show as.foldl f (f s a) = _
    cases later : lastAt? key (key a) as with
    | some b =>
      -- a later change with this key makes the first one void
      rw [h.foldl_of_lastAt? later, h.undo s a b (key_of_lastAt? later).symm,
        ← h.foldl_of_lastAt? later]
      refine ih (fun k => ?_) s
      rw [← same k]
      by_cases own : key a = k
      · rw [← own, lastAt?_cons_of_some later, later]
      · rw [lastAt?_cons_of_ne own]
    | none =>
      have last := (same (key a)).symm.trans (lastAt?_cons_of_none later rfl)
      rw [h.foldl_of_lastAt? last]
      refine ih (fun k => ?_) (f s a)
      by_cases own : k = key a
      · rw [own, later, lastAt?_filter_self]
      · rw [lastAt?_filter_of_ne own, ← same k, lastAt?_cons_of_ne (Ne.symm own)]

end Overwrites

end Last

end Almanac
