import Almanac.PeriodList.Basic
import Almanac.Proofs.Period.Coverage

/-!
# Members of a period list

A period list holds date periods and date-time periods in one order. This file fixes

* its two parts, the date members and the date-time members (`PeriodList.dates`,
  `PeriodList.times`): a period put into the list leaves the other part alone, and goes to the end
  of its own part when it comes after all that are there (`dates_insert`, `times_insert`);
* **what a list covers** (`PeriodList.Covers`), and that putting the members of one list into another
  covers what the two cover (`covers_insertAll`).
-/

namespace Almanac

namespace PeriodList

/-! ## 1. The two parts of a list -/

/-- The members between date-times. -/
def times (l : PeriodList) : List Period := l.members.filter Period.isDateTime

/-- The members between dates. -/
def dates (l : PeriodList) : List Period := l.members.filter fun p => !p.isDateTime

/-- Whether some member covers an instant. -/
def Covers (l : PeriodList) (i : Civil) : Prop := ∃ p ∈ l.members, p.Covers i

instance (l : PeriodList) (i : Civil) : Decidable (l.Covers i) :=
  inferInstanceAs (Decidable (∃ p ∈ l.members, p.Covers i))

theorem covers_iff_times {l : PeriodList} {i : Civil} : l.Covers i ↔ ∃ p ∈ l.times, p.Covers i := by
  constructor
  · rintro ⟨p, hp, h⟩
    exact ⟨p, List.mem_filter.mpr ⟨hp, h.1⟩, h⟩
  · rintro ⟨p, hp, h⟩
    exact ⟨p, (List.mem_filter.mp hp).1, h⟩

/-! ## 2. Putting a period in -/

variable {part : Period → Bool} {p : Period} {members : List Period}

/-- A period of another part leaves a part alone. -/
theorem filter_place_of_not (h : part p = false) :
    (place true p members).filter part = members.filter part := by
  induction members with
  | nil => simp [place, h]
  | cons q rest ih =>
    simp only [place]
    split
    · rw [List.filter_cons_of_neg (by simp [h])]
    · rfl
    · rw [List.filter_cons, List.filter_cons, ih]

/-- **A period that comes after all of its part goes to the end of it**, if nothing of another part
    is the same. -/
theorem filter_place_of_last (h : part p = true)
    (sorted : members.Pairwise fun p q => Period.compare p q = .lt)
    (later : ∀ q ∈ members, part q = true → Period.compare q p = .lt)
    (differ : ∀ q ∈ members, part q = false → Period.compare p q ≠ .eq) :
    (place true p members).filter part = members.filter part ++ [p] := by
  induction members with
  | nil => simp [place, h]
  | cons q rest ih =>
    obtain ⟨first, sorted'⟩ := List.pairwise_cons.mp sorted
    have later' := fun r hr => later r (List.mem_cons_of_mem q hr)
    have differ' := fun r hr => differ r (List.mem_cons_of_mem q hr)
    simp only [place]
    split
    · -- what comes after the new period is of the other part
      rename_i before
      have none : (q :: rest).filter part = [] := by
        refine List.filter_eq_nil_iff.mpr fun r hr own => ?_
        have after : Period.compare p r = .lt := by
          rcases List.mem_cons.mp hr with rfl | hr'
          · exact before
          · exact Std.TransCmp.lt_trans before (first r hr')
        have back := later r hr own
        rw [Period.compare_swap p r, after] at back
        cases back
      rw [List.filter_cons_of_pos h, none]
      rfl
    · rename_i same
      cases own : part q with
      | true =>
        have back := later q List.mem_cons_self own
        rw [Period.compare_swap p q, same] at back
        cases back
      | false => exact absurd same (differ q List.mem_cons_self own)
    · rw [List.filter_cons, List.filter_cons, ih sorted' later' differ']
      split
      · rfl
      · rfl

variable {l : PeriodList}

theorem times_insert_date (h : p.isDateTime = false) : (l.insert p).times = l.times :=
  filter_place_of_not h

theorem dates_insert_time (h : p.isDateTime = true) : (l.insert p).dates = l.dates :=
  filter_place_of_not (by rw [h]; rfl)

theorem compare_ne_eq_of_isDateTime_ne {q : Period} (h : p.isDateTime ≠ q.isDateTime) :
    Period.compare p q ≠ .eq :=
  fun same => h (Period.eq_of_compare same).1

theorem times_insert (h : p.isDateTime = true)
    (later : ∀ q ∈ l.times, Period.compare q p = .lt) : (l.insert p).times = l.times ++ [p] := by
  refine filter_place_of_last h l.ascending (fun q hq own => ?_) fun q _ other => ?_
  · exact later q (List.mem_filter.mpr ⟨hq, own⟩)
  · exact compare_ne_eq_of_isDateTime_ne (by rw [h, other]; simp)

theorem dates_insert (h : p.isDateTime = false)
    (later : ∀ q ∈ l.dates, Period.compare q p = .lt) : (l.insert p).dates = l.dates ++ [p] := by
  refine filter_place_of_last (by rw [h]; rfl) l.ascending (fun q hq own => ?_) fun q _ other => ?_
  · exact later q (List.mem_filter.mpr ⟨hq, own⟩)
  · refine compare_ne_eq_of_isDateTime_ne fun e => ?_
    rw [← e, h] at other
    cases other

/-! ## 3. Putting many periods in -/

theorem mem_of_mem_place {keep : Bool} {q : Period} (h : q ∈ place keep p members) :
    q = p ∨ q ∈ members := by
  induction members with
  | nil => exact .inl (List.mem_singleton.mp h)
  | cons r rest ih =>
    simp only [place] at h
    split at h
    · exact List.mem_cons.mp h
    · rcases List.mem_cons.mp h with rfl | h
      · split
        · exact .inr List.mem_cons_self
        · exact .inl rfl
      · exact .inr (List.mem_cons_of_mem r h)
    · rcases List.mem_cons.mp h with rfl | h
      · exact .inr List.mem_cons_self
      · exact (ih h).imp id (List.mem_cons_of_mem r)

theorem mem_place_of_mem {q : Period} (h : q ∈ members) : q ∈ place true p members := by
  induction members with
  | nil => cases h
  | cons r rest ih =>
    simp only [place]
    split
    · exact List.mem_cons_of_mem p h
    · exact h
    · rcases List.mem_cons.mp h with rfl | h
      · exact List.mem_cons_self
      · exact List.mem_cons_of_mem r (ih h)

theorem exists_same_mem_place (keep : Bool) (p : Period) (members : List Period) :
    ∃ q ∈ place keep p members, Period.compare p q = .eq := by
  induction members with
  | nil => exact ⟨p, List.mem_cons_self, Std.ReflCmp.compare_self⟩
  | cons r rest ih =>
    simp only [place]
    split
    · exact ⟨p, List.mem_cons_self, Std.ReflCmp.compare_self⟩
    · rename_i same
      cases keep with
      | true => exact ⟨r, List.mem_cons_self, same⟩
      | false => exact ⟨p, List.mem_cons_self, Std.ReflCmp.compare_self⟩
    · obtain ⟨q, hq, same⟩ := ih
      exact ⟨q, List.mem_cons_of_mem r hq, same⟩

/-- What was there is still there, or what has taken its place. -/
theorem exists_same_mem_place_of_mem (keep : Bool) {q : Period} (h : q ∈ members) :
    ∃ r ∈ place keep p members, Period.compare q r = .eq := by
  induction members with
  | nil => cases h
  | cons r rest ih =>
    simp only [place]
    split
    · exact ⟨q, List.mem_cons_of_mem p h, Std.ReflCmp.compare_self⟩
    · rename_i same
      rcases List.mem_cons.mp h with rfl | h
      · cases keep with
        | true => exact ⟨q, List.mem_cons_self, Std.ReflCmp.compare_self⟩
        | false => exact ⟨p, List.mem_cons_self, Std.OrientedCmp.eq_symm same⟩
      · exact ⟨q, List.mem_cons_of_mem _ h, Std.ReflCmp.compare_self⟩
    · rcases List.mem_cons.mp h with rfl | h
      · exact ⟨q, List.mem_cons_self, Std.ReflCmp.compare_self⟩
      · obtain ⟨s, hs, same⟩ := ih h
        exact ⟨s, List.mem_cons_of_mem r hs, same⟩

theorem mem_of_mem_insertAll {ps : List Period} {q : Period}
    (h : q ∈ (l.insertAll ps).members) : q ∈ l.members ∨ q ∈ ps := by
  induction ps generalizing l with
  | nil => exact .inl h
  | cons p rest ih =>
    rcases ih (l := l.insert p) h with h | h
    · rcases mem_of_mem_place h with rfl | h
      · exact .inr List.mem_cons_self
      · exact .inl h
    · exact .inr (List.mem_cons_of_mem p h)

theorem mem_insertAll_of_mem {ps : List Period} {q : Period} (h : q ∈ l.members) :
    q ∈ (l.insertAll ps).members := by
  induction ps generalizing l with
  | nil => exact h
  | cons p rest ih => exact ih (l := l.insert p) (mem_place_of_mem h)

/-- For every period that is put in, one that is the same is there in the end. -/
theorem exists_same_mem_insertAll {ps : List Period} (h : p ∈ ps) :
    ∃ q ∈ (l.insertAll ps).members, Period.compare p q = .eq := by
  induction ps generalizing l with
  | nil => cases h
  | cons r rest ih =>
    show ∃ q ∈ ((l.insert r).insertAll rest).members, _
    rcases List.mem_cons.mp h with rfl | h
    · obtain ⟨q, hq, same⟩ := exists_same_mem_place true p l.members
      exact ⟨q, mem_insertAll_of_mem hq, same⟩
    · exact ih h

theorem mem_of_mem_foldl_replace {ps : List Period} {q : Period}
    (h : q ∈ (ps.foldl replace l).members) : q ∈ l.members ∨ q ∈ ps := by
  induction ps generalizing l with
  | nil => exact .inl h
  | cons p rest ih =>
    rcases ih (l := l.replace p) h with h | h
    · rcases mem_of_mem_place h with rfl | h
      · exact .inr List.mem_cons_self
      · exact .inl h
    · exact .inr (List.mem_cons_of_mem p h)

theorem exists_same_mem_foldl_replace {ps : List Period}
    (h : p ∈ ps ∨ ∃ q ∈ l.members, Period.compare p q = .eq) :
    ∃ q ∈ (ps.foldl replace l).members, Period.compare p q = .eq := by
  induction ps generalizing l with
  | nil => exact h.resolve_left List.not_mem_nil
  | cons r rest ih =>
    refine ih (l := l.replace r) ?_
    rcases h with h | ⟨q, hq, same⟩
    · rcases List.mem_cons.mp h with rfl | h
      · exact .inr (exists_same_mem_place false p l.members)
      · exact .inl h
    · obtain ⟨s, hs, same'⟩ := exists_same_mem_place_of_mem (p := r) false hq
      exact .inr ⟨s, hs, Std.TransCmp.eq_trans same same'⟩

/-- **The set of some periods** has none but these, and for each of them one that is the same. -/
theorem mem_of_mem_ofList {ps : List Period} (h : p ∈ (ofList ps).members) : p ∈ ps :=
  (mem_of_mem_foldl_replace h).resolve_left List.not_mem_nil

theorem exists_same_mem_ofList {ps : List Period} (h : p ∈ ps) :
    ∃ q ∈ (ofList ps).members, Period.compare p q = .eq :=
  exists_same_mem_foldl_replace (.inl h)

theorem covers_insert {i : Civil} : (l.insert p).Covers i ↔ l.Covers i ∨ p.Covers i := by
  constructor
  · rintro ⟨q, hq, h⟩
    rcases mem_of_mem_place hq with rfl | hq
    · exact .inr h
    · exact .inl ⟨q, hq, h⟩
  · rintro (⟨q, hq, h⟩ | h)
    · exact ⟨q, mem_place_of_mem hq, h⟩
    · obtain ⟨q, hq, same⟩ := exists_same_mem_place true p l.members
      exact ⟨q, hq, (Period.covers_of_compare same i).mp h⟩

/-- **A list into which periods have been put covers what it covered, and what they cover.** -/
theorem covers_insertAll {ps : List Period} {i : Civil} :
    (l.insertAll ps).Covers i ↔ l.Covers i ∨ ∃ p ∈ ps, p.Covers i := by
  induction ps generalizing l with
  | nil => simp [insertAll]
  | cons p rest ih =>
    show ((l.insert p).insertAll rest).Covers i ↔ _
    simp only [ih, covers_insert, List.mem_cons, exists_eq_or_imp, or_assoc]

end PeriodList

end Almanac
