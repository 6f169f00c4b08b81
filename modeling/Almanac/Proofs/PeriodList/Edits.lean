import Almanac.Proofs.Period.Order
import Almanac.Proofs.PeriodList.Members

/-!
# Editing period lists

A period list is built and changed by edits: periods are put in and taken out, one or many, other lists
are added or taken away, and members are merged or dropped. That the members ascend is part of the
type, so every edit keeps it. This file fixes

* **the search in ascending members is exact** (`PeriodList.finds_eq`), for the order is transitive: behind
  a member that comes after a period there is none that is the same;
* so, after whatever edits, **an insertion tells whether no member was the same, and a removal whether
  some member was**, and they change the list by just that
  (`PeriodList.sorted_sets_after_edits`).
-/

namespace Almanac

namespace PeriodList

variable {l : PeriodList} {p q : Period} {members : List Period}

/-! ## 1. Searching -/

/-- **A search through ascending members finds a period just when some member is the same.** -/
theorem finds_eq (h : members.Pairwise fun p q => Period.compare p q = .lt) :
    finds p members = members.any p.same := by
  induction members with
  | nil => rfl
  | cons q rest ih =>
    obtain ⟨first, ascending⟩ := List.pairwise_cons.mp h
    simp only [finds]
    split
    · -- the members to come are later still
      rename_i before
      refine (List.any_eq_false.mpr fun r hr => ?_).symm
      have after : Period.compare p r = .lt := by
        rcases List.mem_cons.mp hr with rfl | hr
        · exact before
        · exact Std.TransCmp.lt_trans before (first r hr)
      rw [Bool.not_eq_true, Period.same_eq_false_iff, after]
      exact nofun
    · rename_i same
      rw [List.any_cons, show p.same q = true from decide_eq_true same, Bool.true_or]
    · rename_i after
      have differ : p.same q = false := Period.same_eq_false_iff.mpr (by rw [after]; exact nofun)
      rw [List.any_cons, differ, Bool.false_or, ih ascending]

theorem tryInsert_eq (l : PeriodList) (p : Period) : l.tryInsert p = (!l.contains p, l.insert p) := by
  unfold tryInsert
  rw [finds_eq l.ascending]
  rfl

theorem tryErase_eq (l : PeriodList) (p : Period) : l.tryErase p = (l.contains p, l.erase p) := by
  unfold tryErase
  rw [finds_eq l.ascending]
  rfl

theorem contains_iff : l.contains p = true ↔ ∃ q ∈ l.members, p.same q = true := List.any_eq_true

theorem contains_eq_false_iff : l.contains p = false ↔ ∀ q ∈ l.members, p.same q = false := by
  unfold contains
  rw [List.any_eq_false]
  exact forall₂_congr fun q _ => Bool.not_eq_true _ ▸ Iff.rfl

/-! ## 2. What insertion and removal do -/

/-- A period goes in when no member is the same; otherwise the members stay as they are. -/
theorem mem_place_iff :
    q ∈ place true p members ↔ q ∈ members ∨ (finds p members = false ∧ q = p) := by
  induction members with
  | nil => simp [place, finds]
  | cons r rest ih =>
    simp only [place, finds]
    split
    · simp only [List.mem_cons, true_and]
      exact or_comm
    · simp
    · rw [List.mem_cons, List.mem_cons, ih, or_assoc]

theorem mem_insert_iff : q ∈ (l.insert p).members ↔
    q ∈ l.members ∨ (l.contains p = false ∧ q = p) := by
  show q ∈ place true p l.members ↔ _
  rw [mem_place_iff, finds_eq l.ascending]
  rfl

theorem mem_erase_iff : q ∈ (l.erase p).members ↔ q ∈ l.members ∧ p.same q = false := by
  show q ∈ l.members.filter _ ↔ _
  rw [List.mem_filter, Bool.not_eq_true']

/-! ## 3. Edits -/

/-- What can be done to a list of periods. -/
inductive Edit where
  /-- A period is put in. -/
  | insert (p : Period)
  /-- The member that is the same as a period is taken out. -/
  | remove (p : Period)
  /-- Periods are put in, one after the other. -/
  | extend (ps : List Period)
  /-- The union with another list is normalised. -/
  | add (other : PeriodList)
  /-- The members of another list are taken away. -/
  | subtract (other : PeriodList)
  /-- Members are merged where they overlap or touch. -/
  | normalise
  /-- Only the members that a test keeps stay. -/
  | retain (keep : Period → Bool)

/-- The list after an edit. -/
def edit (l : PeriodList) : Edit → PeriodList
  | .insert p => (l.tryInsert p).2
  | .remove p => (l.tryErase p).2
  | .extend ps => l.insertAll ps
  | .add other => l.add other
  | .subtract other => l.subtract other
  | .normalise => l.normalise
  | .retain keep => l.filter keep

/-- The list after several edits. -/
def editAll (l : PeriodList) (edits : List Edit) : PeriodList := edits.foldl edit l

/-- **Lists of periods are sorted sets, whatever is done to them.** The order of periods is a total
    preorder, and its equivalence is to be the same. After any edits of any list the members ascend
    strictly. Then an insertion answers whether no member is the same, and adds the period just when that
    is so; a removal answers whether some member is the same, and takes out just that one. -/
theorem sorted_sets_after_edits (l : PeriodList) (edits : List Edit) :
    (∀ p q r : Period,
      ((Period.compare p q).isLE = true ∨ (Period.compare q p).isLE = true) ∧
      ((Period.compare p q).isLE = true → (Period.compare q r).isLE = true →
        (Period.compare p r).isLE = true) ∧
      (p.same q = true ↔ (Period.compare p q).isLE = true ∧ (Period.compare q p).isLE = true) ∧
      (p.same q = true →
        Period.compare p r = Period.compare q r ∧ Period.compare r p = Period.compare r q)) ∧
    ((l.editAll edits).members.Pairwise fun p q => Period.compare p q = .lt) ∧
    ∀ p : Period,
      (((l.editAll edits).tryInsert p).1 = true ↔
        ∀ q ∈ (l.editAll edits).members, p.same q = false) ∧
      (∀ q, q ∈ ((l.editAll edits).tryInsert p).2.members ↔
        q ∈ (l.editAll edits).members ∨ ((l.editAll edits).tryInsert p).1 = true ∧ q = p) ∧
      (((l.editAll edits).tryErase p).1 = true ↔
        ∃ q ∈ (l.editAll edits).members, p.same q = true) ∧
      ∀ q, q ∈ ((l.editAll edits).tryErase p).2.members ↔
        q ∈ (l.editAll edits).members ∧ p.same q = false := by
  refine ⟨Period.compare_lawful, (l.editAll edits).ascending, fun p => ?_⟩
  generalize l.editAll edits = now
  rw [tryInsert_eq, tryErase_eq]
  refine ⟨?_, fun q => ?_, contains_iff, fun q => mem_erase_iff⟩
  · rw [Bool.not_eq_true', contains_eq_false_iff]
  · rw [Bool.not_eq_true']
    exact mem_insert_iff

end PeriodList

end Almanac
