import Almanac.Proofs.Series.Bounds
import Almanac.Proofs.Series.Endings
import Almanac.Proofs.Series.Window

/-!
# What comes next in a series

`Rule.next?` makes a walk of its own, with the value that it is asked about as the start of a window.
This file fixes

* **a window shows the occurrences that are in it** (`Rule.toList_filter`,
  `Rule.mem_dates_iff_of_seen`), when the rule counts them, and also when it does not, on values
  without a zone;
* so the next value is the first occurrence that comes later (`Rule.next?_eq_find?`), and that is the
  next one in the list when the value is an occurrence itself (`Rule.next?_getElem?`);
* **asking again and again lists the occurrences** (`Rule.next?_is_successor`): every question is a
  new walk, and all of them together meet what one walk meets, in order and no value twice.
-/

namespace Almanac.Rule

variable {r : Rule} {seed start value : Temporal}

/-! ## 1. Windows -/

/-- The occurrences from `start` on. -/
def since (r : Rule) (seed start : Temporal) : Series := ⟨r, seed, some start, none⟩

/-- What a rule has to be for a window to show all that is in it: one that counts, or, as long as
    nothing is zoned, one with neither a skip policy nor a guard. -/
def SeenFrom (r : Rule) (seed start : Temporal) : Prop :=
  r.parts.count?.isSome = true ∨
    r.skip = .leaveOut ∧ r.settings.emptyLimit ≤ 0 ∧ seed.zone? = none ∧ start.zone? = none

/-- Series that count show in every window what is in it. -/
theorem toList_filter_of_count {n : Nat} {s : Series} (h : s.rule.parts.count? = some n) :
    s.toList = (s.rule.occurrences s.seed).toList.filter s.inside := by
  have steps : (s.rule.occurrences s.seed).SameSteps s := ⟨rfl, rfl, fun _ => rfl, fun _ => rfl,
    fun _ => rfl⟩
  rw [Series.toList_of_count h, steps.course 0, occurrences_of_count h]

/-- As long as nothing is zoned, so do series with neither a skip policy nor a guard. -/
theorem toList_filter_of_unzoned {s : Series} (hcount : s.rule.parts.count? = none)
    (hskip : s.rule.skip = .leaveOut) (hguard : s.rule.settings.guard? = none)
    (hseed : s.seed.zone? = none) (hstart : ∀ start ∈ s.start, start.zone? = none) :
    s.toList = (s.rule.occurrences s.seed).toList.filter s.inside := by
  have kept : s.LastKept := Series.lastKept_of _ fun _ _ => .inr hseed
  have kept' : (s.rule.occurrences s.seed).LastKept := Series.lastKept_of _ fun _ _ => .inr hseed
  refine eq_of_ascending (Series.pairwise_toList kept hcount)
    ((Series.pairwise_toList kept' hcount).filter _) fun x => ?_
  rw [List.mem_filter, Series.mem_toList_iff_of_unzoned hseed hskip hguard hcount hstart,
    Series.mem_toList_iff_of_unzoned (s := s.rule.occurrences s.seed) hseed hskip hguard hcount
      fun _ h => by cases h]
  constructor
  · rintro ⟨all, notBefore, notBeyond, inside⟩
    exact ⟨⟨all, notBefore, notBeyond, rfl⟩, inside⟩
  · rintro ⟨⟨all, notBefore, notBeyond, -⟩, inside⟩
    exact ⟨all, notBefore, notBeyond, inside⟩

/-- **A window shows the occurrences that are in it**, and nothing else. -/
theorem toList_filter {s : Series} {start : Temporal} (hs : s.start = some start)
    (h : s.rule.SeenFrom s.seed start) :
    s.toList = (s.rule.occurrences s.seed).toList.filter s.inside := by
  cases count : s.rule.parts.count? with
  | some n => exact toList_filter_of_count count
  | none =>
    rcases h with counts | ⟨skip, limit, hseed, hstart⟩
    · rw [count] at counts
      cases counts
    · have guard : s.rule.settings.guard? = none := by
        unfold Settings.guard?
        rw [if_neg (Int.not_lt.mpr limit)]
      have open' : ∀ t ∈ s.start, t.zone? = none := fun t ht => by
        rw [hs] at ht
        cases ht
        exact hstart
      exact toList_filter_of_unzoned count skip guard hseed open'

/-- **A window start leaves out what is before it**, and nothing else. -/
theorem toList_since (h : r.SeenFrom seed start) :
    (r.since seed start).toList = (r.occurrences seed).toList.filter fun t =>
      !(Comparator.forSeed seed).before t start := by
  have inside : (r.since seed start).inside = fun t => !(Comparator.forSeed seed).before t start := by
    funext t
    show (!(Comparator.forSeed seed).before t start && !false) = _
    rw [Bool.not_false, Bool.and_true]
  rw [← inside]
  exact toList_filter rfl h

/-- The dates between two values are the occurrences between them. -/
theorem mem_dates_iff_of_seen (h : r.SeenFrom seed start) {stop t : Temporal} :
    t ∈ r.dates seed start stop none ↔ t ∈ (r.occurrences seed).toList ∧
      (Comparator.forSeed seed).before t start = false ∧
      (Comparator.forSeed seed).after t stop = false := by
  have seen : (r.within seed start stop).toList =
      (r.occurrences seed).toList.filter (r.within seed start stop).inside := toList_filter rfl h
  show t ∈ (r.within seed start stop).toList ↔ _
  rw [seen, List.mem_filter, Series.inside_iff]
  simp [within, Series.comparator]

/-! ## 2. One question -/

/-- **The next value is the first occurrence that comes later.** -/
theorem next?_eq_find? (h : r.SeenFrom seed value) :
    r.next? seed value =
      (r.occurrences seed).toList.find? fun t => (Comparator.forSeed seed).after t value := by
  show (r.since seed value).find? (fun t => (Comparator.forSeed seed).after t value) = _
  rw [Series.find?_eq, toList_since h, List.find?_filter]
  congr 1
  funext t
  -- what comes later is not before the start of the window
  cases later : (Comparator.forSeed seed).after t value with
  | false => simp
  | true =>
    have notBefore := Comparator.before_eq_false_iff.mpr (Int.le_of_lt (Comparator.after_iff.mp later))
    simp [notBefore]

theorem pairwise_occurrences (r : Rule) (seed : Temporal) :
    (r.occurrences seed).toList.Pairwise fun a b =>
      (Comparator.forSeed seed).key a < (Comparator.forSeed seed).key b := by
  obtain ⟨_, gain⟩ := (r.occurrences seed).exists_gain_valuesFrom (r.occurrences seed).setOut
  exact gain.ascends

/-- After an occurrence comes the next one in the list. -/
theorem next?_getElem? {n : Nat} {t : Temporal} (h : r.SeenFrom seed t)
    (ht : (r.occurrences seed).toList[n]? = some t) :
    r.next? seed t = (r.occurrences seed).toList[n + 1]? := by
  rw [next?_eq_find? h]
  exact find?_above_getElem? (r.pairwise_occurrences seed) ht

/-- After a value before the seed comes the first occurrence. -/
theorem next?_of_before (h : r.SeenFrom seed value)
    (before : (Comparator.forSeed seed).before value seed = true) :
    r.next? seed value = (r.occurrences seed).toList[0]? := by
  rw [next?_eq_find? h]
  have proper : ∀ t ∈ (r.occurrences seed).toList, (Comparator.forSeed seed).after t value = true :=
    fun t ht => by
      have low : (Comparator.forSeed seed).key seed ≤ (Comparator.forSeed seed).key t :=
        (Series.proper_of_mem_toList _ ht).notBeforeSeed
      have := Comparator.before_iff.mp before
      exact Comparator.after_iff.mpr (by omega)
  cases hl : (r.occurrences seed).toList with
  | nil => rfl
  | cons first rest =>
    rw [hl] at proper
    exact List.find?_cons_of_pos (proper first List.mem_cons_self)

/-! ## 3. Question after question -/

/-- What is reached from a value by asking so many times for the next one, each time from the answer
    before. -/
def nthNext? (r : Rule) (seed value : Temporal) : (times : Nat) → Option Temporal
  | 0 => some value
  | times + 1 => (r.nthNext? seed value times).bind (r.next? seed)

/-- One step of the enumeration: from one place of the list to the next. -/
theorem bind_next?_getElem? (n : Nat)
    (h : ∀ t : Temporal, t.SameKind seed → r.SeenFrom seed t) :
    (r.occurrences seed).toList[n]?.bind (r.next? seed) = (r.occurrences seed).toList[n + 1]? := by
  cases ht : (r.occurrences seed).toList[n]? with
  | none =>
    have beyond := List.getElem?_eq_none_iff.mp ht
    exact (List.getElem?_eq_none_iff.mpr (by omega)).symm
  | some t =>
    exact next?_getElem? (h t (Series.proper_of_mem_toList _ (List.mem_of_getElem? ht)).kind) ht

/-- **Asking for the next value is the successor in the series.** The rule has a number of
    occurrences; or it has neither a skip policy nor a guard, and the values in question have no
    zone. Then the answer is the first occurrence later than the value, if there is one. From a
    value before the seed, the answers to question after question are the occurrences in their
    order, and none once these are exhausted. -/
theorem next?_is_successor (r : Rule) (seed : Temporal)
    (h : r.parts.count?.isSome = true ∨
      r.skip = .leaveOut ∧ r.settings.emptyLimit ≤ 0 ∧ seed.zone? = none) :
    ∀ value : Temporal, r.parts.count?.isSome = true ∨ value.zone? = none →
      (r.next? seed value =
        (r.occurrences seed).toList.find? fun t => (Comparator.forSeed seed).after t value) ∧
      ((Comparator.forSeed seed).before value seed = true →
        ∀ n, r.nthNext? seed value (n + 1) = (r.occurrences seed).toList[n]?) := by
  have seen : ∀ t : Temporal, r.parts.count?.isSome = true ∨ t.zone? = none → r.SeenFrom seed t := by
    intro t ht
    rcases h with counts | ⟨skip, limit, hseed⟩
    · exact .inl counts
    · exact ht.imp id fun zone => ⟨skip, limit, hseed, zone⟩
  have own : ∀ t : Temporal, t.SameKind seed → r.SeenFrom seed t := by
    intro t kind
    rcases h with counts | ⟨skip, limit, hseed⟩
    · exact .inl counts
    · exact .inr ⟨skip, limit, hseed, kind.2.trans hseed⟩
  intro value zone
  refine ⟨next?_eq_find? (seen value zone), fun before n => ?_⟩
  induction n with
  | zero => exact next?_of_before (seen value zone) before
  | succ n ih =>
    rw [nthNext?, ih]
    exact bind_next?_getElem? n own

/-- Month ends from 31 January 2024 on, asked for after a date and from a date before the seed. -/
theorem next?_of_lastDays :
    let seed : Temporal := .floating ⟨63873910800, false, by decide, by decide⟩
    let value : Temporal := .date ⟨739270, by decide, by decide⟩
    (lastDays.skip = .leaveOut ∧ lastDays.settings.emptyLimit ≤ 0 ∧ seed.zone? = none ∧
        value.zone? = none ∧ (Comparator.forSeed seed).before value seed = true) ∧
      (lastDays.next? seed value =
        (lastDays.occurrences seed).toList.find? fun t =>
          (Comparator.forSeed seed).after t value) ∧
      ∀ n, lastDays.nthNext? seed value (n + 1) = (lastDays.occurrences seed).toList[n]? := by
  intro seed value
  have before : (Comparator.forSeed seed).before value seed = true := by decide
  obtain ⟨next, all⟩ := next?_is_successor lastDays seed (.inr ⟨rfl, Int.le_refl 0, rfl⟩) value
    (.inr rfl)
  exact ⟨⟨rfl, Int.le_refl 0, rfl, rfl, before⟩, next, all before⟩

end Almanac.Rule
